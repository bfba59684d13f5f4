import Mathlib.Data.List.TakeWhile
import Mymuduo.Framework.Numeral

/-! # The arguments of the stress client

    `parseInt` of `example/stress_client.cc` hands the text to `strtol`, which skips white
    space, takes a sign and as many digits as there are, and clamps the number to a `long`.
    `parseArgs` takes up to six arguments by position, the defaults for the others, and
    limits `concurrency` to `total`.
-/

namespace StressClient

/-! ## strtol and parseInt -/

/-- `isspace` in the C locale. -/
def isSpace (b : UInt8) : Bool := b.toNat == 32 || (9 ≤ b.toNat && b.toNat ≤ 13)

def isDigit (b : UInt8) : Bool := 48 ≤ b.toNat && b.toNat ≤ 57

/-- The number that a text of digits is. -/
def digitsValue (digits : List UInt8) : Nat :=
  digits.foldl (fun v b => 10 * v + (b.toNat - 48)) 0

def LONG_MAX : Int := 9223372036854775807

def LONG_MIN : Int := -9223372036854775808

/-- The sign that `strtol` takes off, and whether it is a minus. -/
def takeSign : List UInt8 → Bool × List UInt8
  | [] => (false, [])
  | b :: text =>
    if b = '-'.toUInt8 then (true, text)
    else if b = '+'.toUInt8 then (false, text)
    else (false, b :: text)

/-- `strtol(text, &end, 10)`: the number, and the text from `end` on.  Without a digit `end` is
    `text`. -/
def strtol (text : List UInt8) : Int × List UInt8 :=
  let (negative, rest) := takeSign (text.dropWhile isSpace)
  let digits := rest.takeWhile isDigit
  if digits = [] then (0, text)
  else
    let v : Int := digitsValue digits
    (max LONG_MIN (min LONG_MAX (if negative then -v else v)), rest.dropWhile isDigit)

/-- `parseInt(text, &value)`. -/
def parseInt (text : List UInt8) : Option Nat :=
  let (result, rest) := strtol text
  if rest = text ∨ rest ≠ [] ∨ result ≤ 0 ∨ result > 100000000 then none else some result.toNat

/-- What `parseInt` accepts for `v`: white space, a plus at most, and digits to the end of the
    text. -/
structure IsArgument (text : List UInt8) (v : Nat) : Prop where
  split : ∃ spaces sign digits, text = spaces ++ (sign ++ digits) ∧
    (∀ b ∈ spaces, isSpace b = true) ∧ (sign = [] ∨ sign = ['+'.toUInt8]) ∧
    digits ≠ [] ∧ (∀ b ∈ digits, isDigit b = true) ∧ digitsValue digits = v
  pos : 1 ≤ v
  le : v ≤ 100000000

section

variable {text rest spaces sign digits : List UInt8} {v : Nat}

/-- A digit is neither a space nor a sign. -/
theorem isDigit_cases {b : UInt8} (h : isDigit b = true) :
    isSpace b = false ∧ b ≠ '-'.toUInt8 ∧ b ≠ '+'.toUInt8 := by
  simp only [isDigit, Bool.and_eq_true, decide_eq_true_eq] at h
  refine ⟨?_, ?_, ?_⟩
  · simp only [isSpace, Bool.or_eq_false_iff, beq_eq_false_iff_ne, Bool.and_eq_false_iff,
      decide_eq_false_iff_not]
    omega
  · rintro rfl
    exact absurd h.1 (by decide)
  · rintro rfl
    exact absurd h.1 (by decide)

theorem takeSign_cases (text : List UInt8) :
    (∃ rest, text = '-'.toUInt8 :: rest ∧ takeSign text = (true, rest)) ∨
      ∃ sign rest, text = sign ++ rest ∧ (sign = [] ∨ sign = ['+'.toUInt8]) ∧
        takeSign text = (false, rest) := by
  cases text with
  | nil => exact Or.inr ⟨[], [], rfl, Or.inl rfl, rfl⟩
  | cons b rest =>
    by_cases hminus : b = '-'.toUInt8
    · exact Or.inl ⟨rest, by rw [hminus], by rw [takeSign, if_pos hminus]⟩
    · by_cases hplus : b = '+'.toUInt8
      · exact Or.inr ⟨[b], rest, rfl, Or.inr (by rw [hplus]),
          by rw [takeSign, if_neg hminus, if_pos hplus]⟩
      · exact Or.inr ⟨[], b :: rest, rfl, Or.inl rfl,
          by rw [takeSign, if_neg hminus, if_neg hplus]⟩

/-- What `strtol` takes off a text. -/
theorem strtol_cases (text : List UInt8) :
    strtol text = (0, text) ∨
      ∃ spaces sign digits rest negative, text = spaces ++ (sign ++ (digits ++ rest)) ∧
        (∀ b ∈ spaces, isSpace b = true) ∧
        (negative = true ∨ sign = [] ∨ sign = ['+'.toUInt8]) ∧
        digits ≠ [] ∧ (∀ b ∈ digits, isDigit b = true) ∧
        strtol text = (max LONG_MIN (min LONG_MAX
          (if negative then -(digitsValue digits : Int) else digitsValue digits)), rest) := by
  have htext : text.takeWhile isSpace ++ text.dropWhile isSpace = text :=
    List.takeWhile_append_dropWhile
  have hspaces : ∀ b ∈ text.takeWhile isSpace, isSpace b = true :=
    fun b hb => List.mem_takeWhile_imp hb
  -- the text behind the white space, with its sign taken off
  obtain ⟨negative, sign, rest, hsplit, hsign, htaken⟩ : ∃ negative sign rest,
      text.dropWhile isSpace = sign ++ rest ∧
      (negative = true ∨ sign = [] ∨ sign = ['+'.toUInt8]) ∧
      takeSign (text.dropWhile isSpace) = (negative, rest) := by
    rcases takeSign_cases (text.dropWhile isSpace) with ⟨rest, heq, htaken⟩ |
      ⟨sign, rest, heq, hsign, htaken⟩
    · exact ⟨true, ['-'.toUInt8], rest, heq, Or.inl rfl, htaken⟩
    · exact ⟨false, sign, rest, heq, Or.inr hsign, htaken⟩
  unfold strtol
  simp only [htaken]
  split
  · exact Or.inl rfl
  · rename_i hne
    refine Or.inr ⟨text.takeWhile isSpace, sign, rest.takeWhile isDigit, rest.dropWhile isDigit,
      negative, ?_, hspaces, hsign, hne, fun b hb => List.mem_takeWhile_imp hb, rfl⟩
    rw [List.takeWhile_append_dropWhile, ← hsplit, htext]

/-- `strtol` on a text in the form that is accepted takes all of it. -/
theorem strtol_of_split (hspaces : ∀ b ∈ spaces, isSpace b = true)
    (hsign : sign = [] ∨ sign = ['+'.toUInt8]) (hne : digits ≠ [])
    (hdigits : ∀ b ∈ digits, isDigit b = true) :
    strtol (spaces ++ (sign ++ digits)) =
      (max LONG_MIN (min LONG_MAX (digitsValue digits)), []) := by
  obtain ⟨d, ds, rfl⟩ := List.exists_cons_of_ne_nil hne
  obtain ⟨hspace, hminus, hplus⟩ := isDigit_cases (hdigits d List.mem_cons_self)
  have htake : (d :: ds).takeWhile isDigit = d :: ds :=
    List.takeWhile_eq_self_iff.mpr hdigits
  have hdrop : (d :: ds).dropWhile isDigit = [] := List.dropWhile_eq_nil_iff.mpr hdigits
  -- neither the plus nor the first digit is white space
  have hskip : (spaces ++ (sign ++ d :: ds)).dropWhile isSpace = sign ++ d :: ds := by
    rw [List.dropWhile_append_of_pos hspaces]
    rcases hsign with rfl | rfl
    · rw [List.nil_append, List.dropWhile_cons_of_neg (by simp [hspace])]
    · rw [List.singleton_append, List.dropWhile_cons_of_neg (by decide)]
  have htaken : takeSign (sign ++ d :: ds) = (false, d :: ds) := by
    rcases hsign with rfl | rfl
    · rw [List.nil_append, takeSign, if_neg hminus, if_neg hplus]
    · rw [List.singleton_append, takeSign, if_neg (by decide), if_pos rfl]
  unfold strtol
  simp only [hskip, htaken, htake, hdrop]
  rw [if_neg (by simp)]
  rfl

/-- `parseInt` accepts a text for `v` exactly if it is white space, at most a plus, and digits
    with a value between 1 and 100000000 to the end; so no `long` was clamped. -/
theorem parseInt_eq_some : parseInt text = some v ↔ IsArgument text v := by
  constructor
  · intro h
    unfold parseInt at h
    simp only at h
    split at h
    · cases h
    · rename_i hnot
      obtain rfl := Option.some.inj h
      simp only [not_or, not_not] at hnot
      obtain ⟨hmoved, hend, hpos, hle⟩ := hnot
      rcases strtol_cases text with heq |
        ⟨spaces, sign, digits, rest, negative, htext, hspaces, hsign, hne, hdigits, heq⟩
      · rw [heq] at hmoved
        exact absurd rfl hmoved
      · rw [heq] at hend hpos hle ⊢
        simp only at hend hpos hle ⊢
        cases negative with
        | true =>
          -- a number with a minus is not positive
          simp only [LONG_MIN, LONG_MAX, if_true] at hpos
          omega
        | false =>
          have hclamp : max LONG_MIN (min LONG_MAX (digitsValue digits : Int)) =
              digitsValue digits := by
            simp only [LONG_MIN, LONG_MAX] at hle ⊢
            simp at hle
            omega
          simp only [Bool.false_eq_true, if_false, hclamp] at hpos hle ⊢
          rw [Int.toNat_natCast]
          refine ⟨⟨spaces, sign, digits, ?_, hspaces, ?_, hne, hdigits, rfl⟩, by omega, by omega⟩
          · rw [htext, hend, List.append_nil]
          · simpa using hsign
  · rintro ⟨⟨spaces, sign, digits, rfl, hspaces, hsign, hne, hdigits, rfl⟩, hpos, hle⟩
    have hstrtol := strtol_of_split hspaces hsign hne hdigits
    have hclamp : max LONG_MIN (min LONG_MAX (digitsValue digits : Int)) = digitsValue digits := by
      unfold LONG_MIN LONG_MAX
      omega
    rw [hclamp] at hstrtol
    unfold parseInt
    simp only [hstrtol]
    rw [if_neg, Int.toNat_natCast]
    rintro (hsame | hend | hnonpos | hlarge)
    · have : digits = [] := by
        rcases List.append_eq_nil_iff.mp hsame.symm with ⟨_, hrest⟩
        exact (List.append_eq_nil_iff.mp hrest).2
      exact hne this
    · exact hend rfl
    · omega
    · omega

theorem isDigit_of_mem_numeral {n : Nat} {b : UInt8} (h : b ∈ numeral n) : isDigit b = true := by
  obtain ⟨hlow, hhigh⟩ := mem_numeral h
  simp [isDigit, hlow, hhigh]

theorem digitsValue_concat (digits : List UInt8) (b : UInt8) :
    digitsValue (digits ++ [b]) = 10 * digitsValue digits + (b.toNat - 48) := by
  unfold digitsValue
  rw [List.foldl_append]
  rfl

theorem digitsValue_numeral (n : Nat) : digitsValue (numeral n) = n := by
  have hbyte : ∀ d, d < 10 → (digitByte d).toNat - 48 = d := by decide
  -- by the number of digits: the last one, then the ones before it
  induction n using Nat.strongRecOn with
  | _ n ih =>
    by_cases hlt : n < 10
    · rw [numeral_of_lt hlt]
      show 10 * 0 + ((digitByte n).toNat - 48) = n
      rw [hbyte n hlt, Nat.mul_zero, Nat.zero_add]
    · rw [numeral_of_ge (Nat.le_of_not_lt hlt), digitsValue_concat, ih (n / 10) (by omega),
        hbyte _ (Nat.mod_lt n (by decide))]
      omega

/-- A printed number is accepted. -/
theorem parseInt_numeral (hpos : 1 ≤ v) (hle : v ≤ 100000000) :
    parseInt (numeral v) = some v := by
  refine parseInt_eq_some.mpr ⟨⟨[], [], numeral v, rfl, by simp, Or.inl rfl, ?_, ?_,
    digitsValue_numeral v⟩, hpos, hle⟩
  · simp [numeral]
  · exact fun b hb => isDigit_of_mem_numeral hb

end

/-! ## parseArgs -/

structure Config where
  host : List UInt8 := "127.0.0.1".toList.map Char.toUInt8
  port : List UInt8 := "8080".toList.map Char.toUInt8
  total : Nat := 10000
  concurrency : Nat := 100
  messageSize : Nat := 16
  timeoutMs : Nat := 1000
  deriving DecidableEq

def shortHelp : List UInt8 := "-h".toList.map Char.toUInt8

def longHelp : List UInt8 := "--help".toList.map Char.toUInt8

/-- The host, unless the first argument asks for help. -/
def hostArg (args : List (List UInt8)) (default : List UInt8) : Except Bool (List UInt8) :=
  match args[0]? with
  | none => .ok default
  | some arg => if arg = shortHelp ∨ arg = longHelp then .error true else .ok arg

/-- A number at position `i`, or the default where the argument is missing. -/
def intArg (args : List (List UInt8)) (i default : Nat) : Except Bool Nat :=
  match args[i]? with
  | none => .ok default
  | some text =>
    match parseInt text with
    | some v => .ok v
    | none => .error false

/-- `parseArgs` on the arguments behind the program's name; the error says whether the help was
    asked for. -/
def parseArgs (args : List (List UInt8)) : Except Bool Config := do
  let config : Config := {}
  let host ← hostArg args config.host
  let port := args[1]?.getD config.port
  let total ← intArg args 2 config.total
  let concurrency ← intArg args 3 config.concurrency
  let messageSize ← intArg args 4 config.messageSize
  let timeoutMs ← intArg args 5 config.timeoutMs
  if 6 < args.length then .error false
  else .ok { host, port, total, concurrency := min concurrency total, messageSize, timeoutMs }

/-- A number that `parseInt` can return. -/
def InRange (v : Nat) : Prop := 1 ≤ v ∧ v ≤ 100000000

instance (v : Nat) : Decidable (InRange v) := inferInstanceAs (Decidable (_ ∧ _))

/-- What the rest of the program relies on. -/
structure Config.Valid (config : Config) : Prop where
  host : config.host ≠ shortHelp ∧ config.host ≠ longHelp
  total : InRange config.total
  concurrency : 1 ≤ config.concurrency ∧ config.concurrency ≤ config.total
  messageSize : InRange config.messageSize
  timeoutMs : InRange config.timeoutMs

/-- The arguments that ask for a configuration. -/
def Config.args (config : Config) : List (List UInt8) :=
  [config.host, config.port, numeral config.total, numeral config.concurrency,
    numeral config.messageSize, numeral config.timeoutMs]

section

variable {args : List (List UInt8)} {config : Config}

theorem bind_eq_ok {ε α β : Type} {x : Except ε α} {f : α → Except ε β} {b : β}
    (h : x >>= f = .ok b) : ∃ a, x = .ok a ∧ f a = .ok b := by
  cases x with
  | error e => cases h
  | ok a => exact ⟨a, rfl, h⟩

theorem intArg_inRange {i default v : Nat} (hdefault : InRange default)
    (h : intArg args i default = .ok v) : InRange v := by
  unfold intArg at h
  split at h
  · obtain rfl := Except.ok.inj h
    exact hdefault
  · split at h
    · rename_i hparse
      obtain rfl := Except.ok.inj h
      have harg := parseInt_eq_some.mp hparse
      exact ⟨harg.pos, harg.le⟩
    · cases h

theorem intArg_numeral {i default v : Nat} (hget : args[i]? = some (numeral v)) (hv : InRange v) :
    intArg args i default = .ok v := by
  unfold intArg
  simp only [hget, parseInt_numeral hv.1 hv.2]

theorem valid_of_parseArgs (h : parseArgs args = .ok config) : config.Valid := by
  unfold parseArgs at h
  obtain ⟨host, hhost, h⟩ := bind_eq_ok h
  obtain ⟨total, htotal, h⟩ := bind_eq_ok h
  obtain ⟨concurrency, hconcurrency, h⟩ := bind_eq_ok h
  obtain ⟨messageSize, hmessageSize, h⟩ := bind_eq_ok h
  obtain ⟨timeoutMs, htimeoutMs, h⟩ := bind_eq_ok h
  split at h
  · cases h
  · obtain rfl := Except.ok.inj h
    have hrange : InRange total := intArg_inRange (by decide) htotal
    have hconcurrency : InRange concurrency := intArg_inRange (by decide) hconcurrency
    refine ⟨?_, hrange, ⟨?_, Nat.min_le_right _ _⟩, intArg_inRange (by decide) hmessageSize,
      intArg_inRange (by decide) htimeoutMs⟩
    · unfold hostArg at hhost
      split at hhost
      · obtain rfl := Except.ok.inj hhost
        show ({} : Config).host ≠ shortHelp ∧ ({} : Config).host ≠ longHelp
        decide
      · split at hhost
        · cases hhost
        · rename_i hnot
          obtain rfl := Except.ok.inj hhost
          exact not_or.mp hnot
    · exact Nat.le_min.mpr ⟨hconcurrency.1, hrange.1⟩

theorem parseArgs_args (h : config.Valid) : parseArgs config.args = .ok config := by
  have hconcurrency : InRange config.concurrency :=
    ⟨h.concurrency.1, h.concurrency.2.trans h.total.2⟩
  have hhost : ∀ default, hostArg config.args default = .ok config.host := by
    intro default
    simp [hostArg, Config.args, h.host.1, h.host.2]
  have hport : ∀ default, config.args[1]?.getD default = config.port := fun _ => rfl
  have hlength : ¬ 6 < config.args.length := Nat.lt_irrefl 6
  have htotal : ∀ default, intArg config.args 2 default = .ok config.total :=
    fun _ => intArg_numeral rfl h.total
  have hconc : ∀ default, intArg config.args 3 default = .ok config.concurrency :=
    fun _ => intArg_numeral rfl hconcurrency
  have hsize : ∀ default, intArg config.args 4 default = .ok config.messageSize :=
    fun _ => intArg_numeral rfl h.messageSize
  have htimeout : ∀ default, intArg config.args 5 default = .ok config.timeoutMs :=
    fun _ => intArg_numeral rfl h.timeoutMs
  simp only [parseArgs, hhost, hport, htotal, hconc, hsize, htimeout, hlength, if_false]
  show Except.ok { config with concurrency := min config.concurrency config.total } = _
  rw [Nat.min_eq_left h.concurrency.2]

/-- A number is accepted exactly as white space, at most a plus, and digits of a value between 1
    and 100000000, with nothing behind them.  The configurations that `parseArgs` can return are
    those with `total`, `message_size` and `timeout_ms` in that range, a `concurrency` between 1
    and `total`, and a host that does not ask for help; each is returned for the arguments that
    print it. -/
theorem arguments_accepted :
    (∀ text v, parseInt text = some v ↔ IsArgument text v) ∧
      (∀ config, (∃ args, parseArgs args = .ok config) ↔ config.Valid) ∧
      ∀ config : Config, config.Valid → parseArgs config.args = .ok config := by
  refine ⟨fun _ _ => parseInt_eq_some, ?_, fun _ => parseArgs_args⟩
  intro config
  constructor
  · rintro ⟨args, h⟩
    exact valid_of_parseArgs h
  · intro h
    exact ⟨config.args, parseArgs_args h⟩

end

end StressClient
