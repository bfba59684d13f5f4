import Mathlib.Data.Finset.Insert
import Mathlib.Data.List.TakeWhile
import Mymuduo.Framework.Machine
import Mymuduo.Framework.Numeral
import Mymuduo.Net.ConnectionDescriptors

/-! # The names of connections

    `connections_` is keyed by a name that `newConnection` formats into a buffer of 64
    bytes.  The names of one server are all different as long as `nextConnId_` does not
    overflow (`connections_exact`), so the table is the one by number that the other modules
    use: every run of the server with its loops is one of the table by name
    (`named_reachable`).
-/

/-! ## Addresses -/

/-- A `sockaddr_in`: the bytes of `sin_addr` in network order, and the port. -/
structure InetAddress where
  addr : UInt8 × UInt8 × UInt8 × UInt8
  port : UInt16

namespace InetAddress

/-- `inet_ntop(AF_INET, ..)`. -/
def toIp (a : InetAddress) : List Byte :=
  numeral a.addr.1.toNat ++ '.'.toUInt8 :: numeral a.addr.2.1.toNat ++ '.'.toUInt8 ::
    numeral a.addr.2.2.1.toNat ++ '.'.toUInt8 :: numeral a.addr.2.2.2.toNat

def toIpPort (a : InetAddress) : List Byte :=
  a.toIp ++ ':'.toUInt8 :: numeral a.port.toNat

theorem length_octet_le (b : UInt8) : (numeral b.toNat).length ≤ 3 := by
  apply length_numeral_le (by decide)
  have := b.toNat_lt
  omega

theorem length_toIpPort_le (a : InetAddress) : a.toIpPort.length ≤ 21 := by
  have h1 := length_octet_le a.addr.1
  have h2 := length_octet_le a.addr.2.1
  have h3 := length_octet_le a.addr.2.2.1
  have h4 := length_octet_le a.addr.2.2.2
  have h5 : (numeral a.port.toNat).length ≤ 5 := by
    apply length_numeral_le (by decide)
    have := a.port.toNat_lt
    omega
  simp only [toIpPort, toIp, List.length_append, List.length_cons]
  omega

theorem zero_notMem_toIpPort (a : InetAddress) : 0 ∉ a.toIpPort := by
  have h : ∀ n, (0 : UInt8) ∉ numeral n := fun n => zero_notMem_numeral n
  simp only [toIpPort, toIp, List.mem_append, List.mem_cons, h, or_false, false_or, not_or]
  decide

end InetAddress

namespace ConnectionNames

/-! ## Formatting -/

/-- What a buffer of `size` bytes holds after `snprintf`, up to the final zero. -/
def snprintf (size : Nat) (text : List Byte) : List Byte := text.take (size - 1)

/-- A string read up to its first zero byte. -/
def cString (bytes : List Byte) : List Byte := bytes.takeWhile (· ≠ 0)

/-- `"-%s#%d"`. -/
def suffix (ipPort_ : List Byte) (nextConnId_ : Nat) : List Byte :=
  '-'.toUInt8 :: cString ipPort_ ++ '#'.toUInt8 :: numeral nextConnId_

def connName (name_ ipPort_ : List Byte) (nextConnId_ : Nat) : List Byte :=
  name_ ++ cString (snprintf 64 (suffix ipPort_ nextConnId_))

theorem cString_eq_self {bytes : List Byte} (h : 0 ∉ bytes) : cString bytes = bytes := by
  have hall : ∀ b ∈ bytes, decide (b ≠ 0) = true := by
    intro b hb
    have hne : b ≠ 0 := fun heq => h (heq ▸ hb)
    simpa using hne
  exact List.takeWhile_eq_self_iff.mpr hall

theorem suffix_toIpPort (a : InetAddress) (m : Nat) :
    suffix a.toIpPort m = '-'.toUInt8 :: a.toIpPort ++ '#'.toUInt8 :: numeral m := by
  rw [suffix, cString_eq_self a.zero_notMem_toIpPort]

/-- The text and its final zero fit into the 64 bytes with room to spare. -/
theorem length_suffix_lt (a : InetAddress) {m : Nat} (hm : m < 2 ^ 31) :
    (suffix a.toIpPort m).length < 64 := by
  have haddr := a.length_toIpPort_le
  have hid : (numeral m).length ≤ 10 := by
    apply length_numeral_le (by decide)
    omega
  rw [suffix_toIpPort]
  simp only [List.length_append, List.length_cons]
  omega

theorem zero_notMem_suffix (a : InetAddress) (m : Nat) : 0 ∉ suffix a.toIpPort m := by
  have hid := zero_notMem_numeral m
  have haddr := a.zero_notMem_toIpPort
  rw [suffix_toIpPort]
  simp only [List.mem_append, List.mem_cons, haddr, hid, or_false, not_or]
  decide

theorem snprintf_suffix (a : InetAddress) {m : Nat} (hm : m < 2 ^ 31) :
    snprintf 64 (suffix a.toIpPort m) = suffix a.toIpPort m := by
  have := length_suffix_lt a hm
  exact List.take_of_length_le (by omega)

theorem connName_eq (name_ : List Byte) (a : InetAddress) {m : Nat} (hm : m < 2 ^ 31) :
    connName name_ a.toIpPort m = name_ ++ suffix a.toIpPort m := by
  rw [connName, snprintf_suffix a hm, cString_eq_self (zero_notMem_suffix a m)]

theorem connName_inj {name_ : List Byte} {a : InetAddress} {m k : Nat} (hm : m < 2 ^ 31)
    (hk : k < 2 ^ 31) (h : connName name_ a.toIpPort m = connName name_ a.toIpPort k) : m = k := by
  rw [connName_eq name_ a hm, connName_eq name_ a hk, suffix_toIpPort, suffix_toIpPort] at h
  have hsuffix := List.append_cancel_left (List.append_cancel_left h)
  exact numeral_injective (List.cons.inj hsuffix).2

/-! ## The table -/

/-- A server with its connections; a connection is known by the order of creation. -/
structure State where
  name_ : List Byte
  ipPort_ : List Byte
  nextConnId_ : Nat := 1
  connections_ : List Byte → Option ConnPtr := fun _ => none
  /-- `name()` of every connection created, the first one first. -/
  names : List (List Byte) := []
  /-- The connections for which `removeConnectionInLoop` has run. -/
  removed : Finset ConnPtr := ∅

inductive Label where
  | newConnection
  | removeConnectionInLoop (c : ConnPtr)
  deriving DecidableEq

namespace State

/-- The name of the next connection. -/
def nextName (s : State) : List Byte := connName s.name_ s.ipPort_ s.nextConnId_

def newConnection (s : State) : State :=
  { s with
    nextConnId_ := s.nextConnId_ + 1
    connections_ := Function.update s.connections_ s.nextName (some s.names.length)
    names := s.names ++ [s.nextName] }

/-- For the connection `c` with the given name. -/
def removeConnectionInLoop (s : State) (c : ConnPtr) (name : List Byte) : State :=
  { s with
    connections_ := Function.update s.connections_ name none
    removed := insert c s.removed }

end State

def next (s : State) : Label → Option State
  -- incrementing the largest int is not defined
  | .newConnection => if s.nextConnId_ < 2 ^ 31 - 1 then some s.newConnection else none
  | .removeConnectionInLoop c => (s.names[c]?).map (s.removeConnectionInLoop c)

/-- The constructor takes a name and the address to listen on. -/
def machine : Machine State Label where
  init := fun s => ∃ (nameArg : List Byte) (listenAddr : InetAddress),
    s = { name_ := nameArg, ipPort_ := listenAddr.toIpPort }
  next := next

/-- The names are those of the numbers from 1 on, and the table is what is left of them. -/
structure Exact (a : InetAddress) (s : State) : Prop where
  ipPort_ : s.ipPort_ = a.toIpPort
  nextConnId_ : s.nextConnId_ = s.names.length + 1
  small : s.nextConnId_ < 2 ^ 31
  name : ∀ c name, s.names[c]? = some name → name = connName s.name_ a.toIpPort (c + 1)
  removed : ∀ c, c ∈ s.removed → c < s.names.length
  table : ∀ name c, s.connections_ name = some c ↔ s.names[c]? = some name ∧ c ∉ s.removed

namespace Exact

variable {a : InetAddress} {s s' : State}

theorem of_init (nameArg : List Byte) :
    Exact a { name_ := nameArg, ipPort_ := a.toIpPort } := by
  constructor <;> simp

/-- Two connections with one name are the same. -/
theorem index_inj (h : Exact a s) {c d : ConnPtr} {name : List Byte}
    (hc : s.names[c]? = some name) (hd : s.names[d]? = some name) : c = d := by
  have hlt := (List.getElem?_eq_some_iff.mp hc).1
  have hlt' := (List.getElem?_eq_some_iff.mp hd).1
  have hname := (h.name c name hc).symm.trans (h.name d name hd)
  have hnext := h.nextConnId_
  have hsmall := h.small
  exact Nat.succ.inj (connName_inj (by omega) (by omega) hname)

theorem nodup (h : Exact a s) : s.names.Nodup := by
  rw [List.nodup_iff_getElem?_ne_getElem?]
  intro c d hcd hd heq
  rw [List.getElem?_eq_getElem hd] at heq
  exact Nat.ne_of_lt hcd (h.index_inj heq (List.getElem?_eq_getElem hd))

/-- The next name is not that of a connection. -/
theorem nextName_ne (h : Exact a s) {c : ConnPtr} {name : List Byte}
    (hc : s.names[c]? = some name) : name ≠ s.nextName := by
  intro heq
  have hlt := (List.getElem?_eq_some_iff.mp hc).1
  have hname := h.name c name hc
  have hnext := h.nextConnId_
  have hsmall := h.small
  rw [heq, State.nextName, h.ipPort_] at hname
  have := connName_inj (by omega) (by omega) hname
  omega

theorem nextName_free (h : Exact a s) : s.connections_ s.nextName = none := by
  rw [Option.eq_none_iff_forall_ne_some]
  intro c hc
  exact h.nextName_ne ((h.table _ _).mp hc).1 rfl

/-- The connections of a server after `newConnection`. -/
theorem getElem?_newConnection {c : ConnPtr} {name : List Byte} :
    s.newConnection.names[c]? = some name ↔
      s.names[c]? = some name ∨ (c = s.names.length ∧ name = s.nextName) := by
  show (s.names ++ [s.nextName])[c]? = some name ↔ _
  rw [List.getElem?_append]
  split
  next hlt =>
    have hne : c ≠ s.names.length := Nat.ne_of_lt hlt
    simp [hne]
  next hge =>
    have hout : s.names[c]? = none := List.getElem?_eq_none (by omega)
    have hzero : c - s.names.length = 0 ↔ c = s.names.length := by
      rw [Nat.sub_eq_zero_iff_le]
      exact ⟨fun hle => Nat.le_antisymm hle (by omega), fun heq => Nat.le_of_eq heq⟩
    rw [List.getElem?_singleton, Option.ite_none_right_eq_some, Option.some.injEq, hzero, hout,
      eq_comm (a := s.nextName)]
    simp

theorem newConnection (h : Exact a s) (hsmall : s.nextConnId_ < 2 ^ 31 - 1) :
    Exact a s.newConnection where
  ipPort_ := h.ipPort_
  nextConnId_ := by
    show s.nextConnId_ + 1 = (s.names ++ [s.nextName]).length + 1
    rw [List.length_append, List.length_singleton, h.nextConnId_]
  small := by
    show s.nextConnId_ + 1 < 2 ^ 31
    omega
  name := by
    intro c name hc
    show name = connName s.name_ a.toIpPort (c + 1)
    rcases getElem?_newConnection.mp hc with hc | ⟨rfl, rfl⟩
    · exact h.name c name hc
    · rw [State.nextName, h.ipPort_, h.nextConnId_]
  removed := by
    intro c hc
    show c < (s.names ++ [s.nextName]).length
    rw [List.length_append]
    exact Nat.lt_add_right _ (h.removed c hc)
  table := by
    intro name c
    rw [getElem?_newConnection]
    show Function.update s.connections_ s.nextName (some s.names.length) name = some c ↔
      _ ∧ c ∉ s.removed
    by_cases hname : name = s.nextName
    · subst hname
      rw [Function.update_self, Option.some.injEq]
      constructor
      · intro hc
        subst hc
        exact ⟨Or.inr ⟨rfl, rfl⟩, fun hmem => Nat.lt_irrefl _ (h.removed _ hmem)⟩
      · rintro ⟨hc | ⟨hc, _⟩, _⟩
        · exact absurd rfl (h.nextName_ne hc)
        · exact hc.symm
    · rw [Function.update_of_ne hname, h.table]
      simp [hname]

theorem removeConnectionInLoop (h : Exact a s) {c : ConnPtr} {name : List Byte}
    (hc : s.names[c]? = some name) : Exact a (s.removeConnectionInLoop c name) where
  ipPort_ := h.ipPort_
  nextConnId_ := h.nextConnId_
  small := h.small
  name := h.name
  removed := by
    intro d hd
    rcases Finset.mem_insert.mp hd with rfl | hd
    · exact (List.getElem?_eq_some_iff.mp hc).1
    · exact h.removed d hd
  table := by
    intro name' d
    show Function.update s.connections_ name none name' = some d ↔
      s.names[d]? = some name' ∧ d ∉ insert c s.removed
    rw [Finset.mem_insert, not_or]
    by_cases hname : name' = name
    · subst hname
      rw [Function.update_self]
      constructor
      · intro hnone
        cases hnone
      · intro hd
        exact absurd (h.index_inj hd.1 hc) hd.2.1
    · rw [Function.update_of_ne hname, h.table]
      constructor
      · intro hd
        refine ⟨hd.1, ?_, hd.2⟩
        rintro rfl
        rw [hc] at hd
        exact hname (Option.some.inj hd.1).symm
      · intro hd
        exact ⟨hd.1, hd.2.2⟩

/-- The entry that goes is that of the connection. -/
theorem removed_own (h : Exact a s) {c : ConnPtr} {name name' : List Byte}
    (hc : s.names[c]? = some name)
    (hne : (s.removeConnectionInLoop c name).connections_ name' ≠ s.connections_ name') :
    s.connections_ name' = some c := by
  change Function.update s.connections_ name none name' ≠ s.connections_ name' at hne
  by_cases hname : name' = name
  · subst hname
    rw [Function.update_self] at hne
    obtain ⟨d, hd⟩ := Option.ne_none_iff_exists'.mp (Ne.symm hne)
    rw [hd, h.index_inj ((h.table _ _).mp hd).1 hc]
  · rw [Function.update_of_ne hname] at hne
    exact absurd rfl hne

theorem step (h : Exact a s) {l : Label} (hstep : next s l = some s') : Exact a s' := by
  cases l with
  | newConnection =>
    simp only [next, Option.ite_none_right_eq_some, Option.some.injEq] at hstep
    obtain ⟨hsmall, rfl⟩ := hstep
    exact h.newConnection hsmall
  | removeConnectionInLoop c =>
    simp only [next, Option.map_eq_some_iff] at hstep
    obtain ⟨name, hc, rfl⟩ := hstep
    exact h.removeConnectionInLoop hc

end Exact

theorem exact_of_reachable {s : State} (h : machine.Reachable s) :
    ∃ a : InetAddress, Exact a s := by
  apply h.invariant
  · intro s₀ hinit
    obtain ⟨nameArg, listenAddr, rfl⟩ := hinit
    exact ⟨listenAddr, Exact.of_init nameArg⟩
  · intro t l t' ht hnext
    obtain ⟨a, ha⟩ := ht
    exact ⟨a, ha.step hnext⟩

/-- In every run the names are all different, and the table maps the names of the
    connections accepted and not yet removed to these.  The next call of `newConnection`
    is defined up to the last number, formats its name without loss and enters it in a
    free place; `removeConnectionInLoop` takes out no entry but that of its connection. -/
theorem connections_exact {s : State} (h : machine.Reachable s) :
    s.names.Nodup ∧
    (∀ name c, s.connections_ name = some c ↔ s.names[c]? = some name ∧ c ∉ s.removed) ∧
    ((next s .newConnection).isSome ↔ s.names.length + 1 < 2 ^ 31 - 1) ∧
    (suffix s.ipPort_ s.nextConnId_).length < 64 ∧
    (∀ s', next s .newConnection = some s' → s.connections_ s.nextName = none ∧
      s'.names = s.names ++ [s.nextName] ∧
      s.nextName = s.name_ ++ suffix s.ipPort_ s.nextConnId_) ∧
    (∀ c s', next s (.removeConnectionInLoop c) = some s' → ∀ name,
      s'.connections_ name ≠ s.connections_ name → s.connections_ name = some c) := by
  obtain ⟨a, ha⟩ := exact_of_reachable h
  refine ⟨ha.nodup, ha.table, ?_, ?_, ?_, ?_⟩
  · rw [next, ← ha.nextConnId_]
    split <;> simp_all
  · rw [ha.ipPort_]
    exact length_suffix_lt a ha.small
  · intro s' hstep
    simp only [next, Option.ite_none_right_eq_some, Option.some.injEq] at hstep
    obtain ⟨_, rfl⟩ := hstep
    refine ⟨ha.nextName_free, rfl, ?_⟩
    rw [State.nextName, ha.ipPort_]
    exact connName_eq s.name_ a ha.small
  · intro c s' hstep name hne
    simp only [next, Option.map_eq_some_iff] at hstep
    obtain ⟨name', hc, rfl⟩ := hstep
    exact ha.removed_own hc hne

/-- Two connections of a server on 127.0.0.1:80, the first one removed twice. -/
theorem connections_exact_removed_twice :
    ∃ s : State, machine.Reachable s ∧ s.removed = {0} ∧ s.names.length = 2 ∧
      s.names.Nodup ∧ s.connections_ s.nextName = none := by
  have hrun : machine.run
      { name_ := [], ipPort_ := (InetAddress.mk (127, 0, 0, 1) 80).toIpPort }
      [.newConnection, .newConnection, .removeConnectionInLoop 0, .removeConnectionInLoop 0] =
      some _ := rfl
  have hreach : machine.Reachable _ := ⟨_, _, ⟨[], ⟨(127, 0, 0, 1), 80⟩, rfl⟩, hrun⟩
  obtain ⟨hnodup, _, _, _, hnew, _⟩ := connections_exact hreach
  exact ⟨_, hreach, by decide, rfl, hnodup, (hnew _ rfl).1⟩

/-! ## The table by number -/

/-- The table of `TcpServer.State`, whose keys are the numbers in the names, stands for
    the one by name. -/
structure Named {n : Nat} (nameArg : List Byte) (a : InetAddress) (t : TcpServer.State n)
    (s : State) : Prop where
  name_ : s.name_ = nameArg
  exact : Exact a s
  created : t.created = s.names.length
  nextConnId_ : t.nextConnId_ = s.nextConnId_
  connId : ∀ c id, t.ident c = some id → c < t.created ∧ id.connId = c + 1
  connections_ : ∀ m, m < 2 ^ 31 →
    t.connections_ m = s.connections_ (connName nameArg a.toIpPort m)

namespace Named

variable {n : Nat} {nameArg : List Byte} {a : InetAddress} {t t' : TcpServer.State n} {s : State}

/-- An entry written under a name is written under its number. -/
theorem update_eq (h : Named nameArg a t s) {k m : Nat} (hk : k < 2 ^ 31) (hm : m < 2 ^ 31)
    (v : Option ConnPtr) :
    Function.update t.connections_ k v m =
      Function.update s.connections_ (connName nameArg a.toIpPort k) v
        (connName nameArg a.toIpPort m) := by
  by_cases hmk : m = k
  · subst hmk
    rw [Function.update_self, Function.update_self]
  · have hne : connName nameArg a.toIpPort m ≠ connName nameArg a.toIpPort k :=
      fun heq => hmk (connName_inj hm hk heq)
    rw [Function.update_of_ne hmk, Function.update_of_ne hne]
    exact h.connections_ m hm

theorem addConnection (h : Named nameArg a t s) (hsmall : s.nextConnId_ < 2 ^ 31 - 1)
    (ioLoop : Fin (n + 1)) (sockfd : Nat) (writeCompleteCallback_ : Bool) :
    Named nameArg a (t.addConnection ioLoop sockfd writeCompleteCallback_) s.newConnection where
  name_ := h.name_
  exact := h.exact.newConnection hsmall
  created := by
    show t.created + 1 = (s.names ++ [s.nextName]).length
    rw [List.length_append, List.length_singleton, h.created]
  nextConnId_ := congrArg (· + 1) h.nextConnId_
  connId := by
    intro c id hid
    rw [TcpServer.addConnection_ident] at hid
    split at hid
    next hnew =>
      obtain rfl := Option.some.inj hid
      refine ⟨hnew ▸ Nat.lt_succ_self _, ?_⟩
      show t.nextConnId_ = c + 1
      rw [hnew, h.nextConnId_, h.created, h.exact.nextConnId_]
    next =>
      obtain ⟨hlt, hid⟩ := h.connId c id hid
      exact ⟨Nat.lt_succ_of_lt hlt, hid⟩
  connections_ := by
    intro m hm
    show Function.update t.connections_ t.nextConnId_ (some t.created) m =
      Function.update s.connections_ s.nextName (some s.names.length) _
    rw [State.nextName, h.name_, h.exact.ipPort_, h.nextConnId_, h.created]
    exact h.update_eq h.exact.small hm _

/-- The entry of a connection goes in both tables. -/
theorem erase (h : Named nameArg a t s) {c : ConnPtr} {id : TcpServer.Ident n}
    (hident : t.ident c = some id) :
    ∃ s', next s (.removeConnectionInLoop c) = some s' ∧
      Named nameArg a { t with connections_ := Function.update t.connections_ id.connId none }
        s' := by
  obtain ⟨hlt, hid⟩ := h.connId c id hident
  rw [h.created] at hlt
  obtain ⟨name, hc⟩ : ∃ name, s.names[c]? = some name := ⟨_, List.getElem?_eq_getElem hlt⟩
  have hname := h.exact.name c name hc
  have hsmall : c + 1 < 2 ^ 31 := by
    have hlast : s.names.length + 1 < 2 ^ 31 := h.exact.nextConnId_ ▸ h.exact.small
    exact Nat.lt_trans (Nat.succ_lt_succ hlt) hlast
  refine ⟨s.removeConnectionInLoop c name, by simp [next, hc], h.name_,
    h.exact.removeConnectionInLoop hc, h.created, h.nextConnId_, h.connId, ?_⟩
  intro m hm
  show Function.update t.connections_ id.connId none m =
    Function.update s.connections_ name none _
  rw [hid, hname, h.name_]
  exact h.update_eq hsmall hm none

/-- Any number of entries of connections that have not been destroyed. -/
theorem eraseAll (h : Named nameArg a t s) {ms : List Nat}
    (hms : ∀ m ∈ ms, ∃ c id, t.ident c = some id ∧ id.connId = m) :
    ∃ ls s', machine.run s ls = some s' ∧
      Named nameArg a { t with connections_ := TcpServer.eraseAll t.connections_ ms } s' := by
  induction ms generalizing t s with
  | nil => exact ⟨[], s, rfl, h⟩
  | cons m ms ih =>
    obtain ⟨c, id, hident, rfl⟩ := hms m List.mem_cons_self
    obtain ⟨s₁, hnext, h₁⟩ := h.erase hident
    obtain ⟨ls, s', hrun, h'⟩ := ih h₁ fun k hk => hms k (List.mem_cons_of_mem _ hk)
    exact ⟨.removeConnectionInLoop c :: ls, s', machine.run_cons_some.mpr ⟨s₁, hnext, hrun⟩, h'⟩

/-- A step that makes and unmakes no connection. -/
theorem keeps (h : Named nameArg a t s) (hk : TcpServer.Keeps t t') :
    ∃ ls s', machine.run s ls = some s' ∧ Named nameArg a t' s' := by
  obtain ⟨ms, hms, htable⟩ := hk.connections_
  obtain ⟨ls, s', hrun, h'⟩ := h.eraseAll hms
  refine ⟨ls, s', hrun, h'.name_, h'.exact, hk.created.trans h'.created,
    hk.nextConnId_.trans h'.nextConnId_, ?_, ?_⟩
  · intro c id hid
    rw [hk.ident] at hid
    rw [hk.created]
    exact h'.connId c id hid
  · intro m hm
    rw [htable]
    exact h'.connections_ m hm

theorem destroy (h : Named nameArg a t s) (c : ConnPtr) (conn : TcpServer.Conn n) :
    Named nameArg a (t.destroy c conn) s := by
  refine ⟨h.name_, h.exact, h.created, h.nextConnId_, ?_, h.connections_⟩
  intro d id hid
  refine h.connId d id ?_
  rw [TcpServer.destroy_ident] at hid
  split at hid
  · cases hid
  · exact hid

/-- A step of the server is any number of steps of the table by name. -/
theorem step (h : Named nameArg a t s) {l : TcpServer.Label n}
    (hstep : TcpServer.next t l = some t') :
    ∃ ls s', machine.run s ls = some s' ∧ Named nameArg a t' s' := by
  rcases TcpServer.next_cases hstep with ⟨ioLoop, sockfd, wc, _, hsmall, _, hk⟩ |
    ⟨c, conn, _, _, rfl⟩ | ⟨_, _, hk⟩
  · have hsmall' : s.nextConnId_ < 2 ^ 31 - 1 := h.nextConnId_ ▸ hsmall
    obtain ⟨ls, s', hrun, h'⟩ := (h.addConnection hsmall' ioLoop sockfd wc).keeps hk
    refine ⟨.newConnection :: ls, s', machine.run_cons_some.mpr ⟨_, ?_, hrun⟩, h'⟩
    exact if_pos hsmall'
  · exact ⟨[], s, rfl, h.destroy c conn⟩
  · exact h.keeps hk

end Named

/-- Whatever name and address a server has, in every reachable state of the server with its
    loops the table by number is a reachable table by name. -/
theorem named_reachable {n : Nat} (nameArg : List Byte) (a : InetAddress)
    {t : TcpServer.State n} (h : (TcpServer.machine n).Reachable t) :
    ∃ s, machine.Reachable s ∧ Named nameArg a t s := by
  refine Machine.Reachable.simulated ?_ (fun _ _ _ _ hs hstep => hs.step hstep) h
  rintro t rfl
  refine ⟨_, ⟨nameArg, a, rfl⟩, rfl, Exact.of_init nameArg, rfl, rfl, ?_, fun _ _ => rfl⟩
  intro c id hid
  simp [TcpServer.State.ident] at hid

end ConnectionNames
