import OnnxInference.Tensor
import OnnxInference.Transition

/-!
# The call backs of tensor buffers (`include/TensorBuffer.h`, `include/backend/InferenceBackend.h`)

The destructor of a `TensorBuffer` runs its `call_back`.  Since it is declared there are no move operations, and the
copy operations are those of the compiler: a copy has the same `call_back`, `std::move` copies, and an assignment
drops the `call_back` that was there.  A call back runs once and in time if and only if those two things do no harm
(`call_backs_iff`).
-/

namespace OnnxInference.CallBacks

open Transition

/-! ### The model -/

/-- A variable, or the entry of a `ModelOutput` under a name. -/
inductive Place
  | variable (n : Nat)
  | entry (output : Nat) (name : String)
  deriving DecidableEq

/-- A `TensorBuffer`; the call backs are numbered in the order in which they were attached. -/
structure Value where
  data : Ptr
  callBack : Option Nat
  deriving DecidableEq

/-- The values that are alive, the data that each call back was attached for, and the call backs that were invoked, each
with the values that were alive then besides the one that was destroyed.  The program does not have the last two. -/
structure State where
  values : Place → Option Value
  attached : List Ptr
  invoked : List (Nat × (Place → Option Value))

inductive Op
  /-- `create`, or `wrap` -/
  | make (p : Place) (data : Ptr)
  | attach (p : Place)
  /-- construction from another value, be it by `std::move` -/
  | copy (p q : Place)
  /-- assignment of another value, be it by `std::move` -/
  | assign (p q : Place)
  /-- `tensors[name] = q` -/
  | store (output : Nat) (name : String) (q : Place)
  | erase (output : Nat) (name : String)
  /-- the end of a variable -/
  | destroy (n : Nat)

namespace State

variable (s : State)

def set (p : Place) (v : Value) : State := { s with values := Function.update s.values p (some v) }

/-- `~TensorBuffer` of the value of a place. -/
def destroy (p : Place) (v : Value) : State :=
  let rest := Function.update s.values p none
  match v.callBack with
  | some k => { s with values := rest, invoked := s.invoked ++ [(k, rest)] }
  | none => { s with values := rest }

end State

/-- The effect of an operation; `none` where the values that it takes are not there. -/
def step (s : State) : Op → Option State
  | .make p data => if s.values p = none then some (s.set p ⟨data, none⟩) else none
  | .attach p =>
    (s.values p).map fun v =>
      { s.set p { v with callBack := some s.attached.length } with attached := s.attached ++ [v.data] }
  | .copy p q => if s.values p = none then (s.values q).map (s.set p) else none
  | .assign p q => if s.values p = none then none else (s.values q).map (s.set p)
  | .store output name q =>
    -- a new entry is a default value first
    let s' := if s.values (.entry output name) = none then s.set (.entry output name) ⟨0, none⟩ else s
    (s.values q).map (s'.set (.entry output name))
  | .erase output name =>
    match s.values (.entry output name) with
    | some v => some (s.destroy (.entry output name) v)
    | none => some s
  | .destroy n => (s.values (.variable n)).map (s.destroy (.variable n))

def system : System State Op := ⟨⟨fun _ => none, [], []⟩, step⟩

/-- Every call back is invoked once, or not yet and some value carries it; and no value that was alive when it was
invoked refers to its data. -/
structure Kept (s : State) : Prop where
  exactly : ∀ k < s.attached.length, (s.invoked.map Prod.fst).count k = 1 ∨
    k ∉ s.invoked.map Prod.fst ∧ ∃ p v, s.values p = some v ∧ v.callBack = some k
  timely : ∀ x ∈ s.invoked, ∀ p v, x.2 p = some v → s.attached[x.1]? ≠ some v.data

/-! ### Conditions -/

/-- The place whose value is replaced; an assignment to itself replaces nothing. -/
def Op.replaced : Op → Option Place
  | .attach p => some p
  | .assign p q => if p = q then none else some p
  | .store output name q => if .entry output name = q then none else some (.entry output name)
  | _ => none

/-- The place whose value is destroyed. -/
def Op.destroyed : Op → Option Place
  | .erase output name => some (.entry output name)
  | .destroy n => some (.variable n)
  | _ => none

/-- A value with a call back is replaced only while another value carries the call back, and destroyed only while no
other value refers to the data. -/
structure Harmless (s : State) (op : Op) : Prop where
  replaced : ∀ p v k, op.replaced = some p → s.values p = some v → v.callBack = some k →
    ∃ q w, q ≠ p ∧ s.values q = some w ∧ w.callBack = some k
  destroyed : ∀ p v k, op.destroyed = some p → s.values p = some v → v.callBack = some k →
    ∀ q w, q ≠ p → s.values q = some w → w.data ≠ v.data

/-- The place that a value is copied from. -/
def Op.source : Op → Option Place
  | .copy _ q | .assign _ q | .store _ _ q => some q
  | _ => none

/-- A value with a call back is not copied and not replaced, and no other value is made for its data. -/
structure Unshared (s : State) (op : Op) : Prop where
  source : ∀ q w, op.source = some q → s.values q = some w → w.callBack = none
  replaced : ∀ p v, op.replaced = some p → s.values p = some v → v.callBack = none
  attach : ∀ p v, op = .attach p → s.values p = some v → ∀ q w, q ≠ p → s.values q = some w → w.data ≠ v.data
  make : ∀ p data, op = .make p data → ∀ q w, s.values q = some w → w.callBack ≠ none → w.data ≠ data

/-! ### What an operation does -/

/-- The kinds of operations. -/
inductive Moves (s : State) : Op → State → Prop
  | make {p data} (hp : s.values p = none) : Moves s (.make p data) (s.set p ⟨data, none⟩)
  | attach {p v} (hp : s.values p = some v) : Moves s (.attach p)
      { s.set p { v with callBack := some s.attached.length } with attached := s.attached ++ [v.data] }
  | write {op p q v} (hq : s.values q = some v) (hsource : op.source = some q)
      (hp : s.values p = none ∧ op.replaced = none ∨ op.replaced = some p ∧ q ≠ p) : Moves s op (s.set p v)
  | self {op} (hreplaced : op.replaced = none) (hdestroyed : op.destroyed = none) : Moves s op s
  | absent {output name} (hp : s.values (.entry output name) = none) : Moves s (.erase output name) s
  | destroy {op p v} (hp : s.values p = some v) (hop : op.destroyed = some p) : Moves s op (s.destroy p v)

theorem State.set_of_some {s : State} {p : Place} {v : Value} (h : s.values p = some v) : s.set p v = s := by
  rw [State.set, ← h, Function.update_eq_self]

theorem State.set_set (s : State) (p : Place) (v w : Value) : (s.set p v).set p w = s.set p w := by
  simp only [State.set, Function.update_idem]

theorem moves_of_step {s s' : State} {op : Op} (h : step s op = some s') : Moves s op s' := by
  cases op with
  | make p data =>
    simp only [step, Option.ite_none_right_eq_some, Option.some.injEq] at h
    obtain ⟨hp, rfl⟩ := h
    exact .make hp
  | attach p =>
    obtain ⟨v, hp, rfl⟩ := Option.map_eq_some_iff.1 h
    exact .attach hp
  | copy p q =>
    simp only [step, Option.ite_none_right_eq_some] at h
    obtain ⟨hp, h⟩ := h
    obtain ⟨v, hq, rfl⟩ := Option.map_eq_some_iff.1 h
    exact .write hq rfl (.inl ⟨hp, rfl⟩)
  | assign p q =>
    simp only [step, Option.ite_none_left_eq_some] at h
    obtain ⟨-, h⟩ := h
    obtain ⟨v, hq, rfl⟩ := Option.map_eq_some_iff.1 h
    by_cases hpq : p = q
    · rw [hpq, State.set_of_some hq]
      exact .self (if_pos rfl) rfl
    · exact .write hq rfl (.inr ⟨if_neg hpq, Ne.symm hpq⟩)
  | store output name q =>
    obtain ⟨v, hq, rfl⟩ := Option.map_eq_some_iff.1 h
    by_cases hpq : .entry output name = q
    · subst hpq
      rw [if_neg (by rw [hq]; exact Option.some_ne_none v), State.set_of_some hq]
      exact .self (if_pos rfl) rfl
    · have hset : (if s.values (.entry output name) = none then s.set (.entry output name) ⟨0, none⟩ else s).set
          (.entry output name) v = s.set (.entry output name) v := by
        split
        · exact s.set_set _ _ v
        · rfl
      rw [hset]
      exact .write hq rfl (.inr ⟨if_neg hpq, Ne.symm hpq⟩)
  | erase output name =>
    simp only [step] at h
    split at h
    · rename_i v hp
      cases h
      exact .destroy hp rfl
    · rename_i hp
      cases h
      exact .absent hp
  | destroy n =>
    obtain ⟨v, hp, rfl⟩ := Option.map_eq_some_iff.1 h
    exact .destroy hp rfl

namespace Op

theorem destroyed_of_source {op : Op} {p : Place} (h : op.source = some p) : op.destroyed = none := by
  cases op with
  | copy | assign | store => rfl
  | make | attach | erase | destroy => cases h

theorem replaced_of_destroyed {op : Op} {p : Place} (h : op.destroyed = some p) : op.replaced = none := by
  cases op with
  | erase | destroy => rfl
  | make | attach | copy | assign | store => cases h

end Op

section Values

variable {s : State} {p q : Place} {v w : Value}

theorem State.set_values_of_ne (h : q ≠ p) : (s.set p v).values q = s.values q := Function.update_of_ne h _ _

theorem State.set_values (s : State) (p : Place) (v : Value) : (s.set p v).values p = some v := Function.update_self ..

theorem State.destroy_values (s : State) (p : Place) (v : Value) :
    (s.destroy p v).values = Function.update s.values p none := by
  unfold State.destroy
  split <;> rfl

theorem State.destroy_attached (s : State) (p : Place) (v : Value) : (s.destroy p v).attached = s.attached := by
  unfold State.destroy
  split <;> rfl

/-- A value after the destruction of one was there before, and it is another one. -/
theorem of_update_none {values : Place → Option Value} (h : Function.update values p none q = some w) :
    q ≠ p ∧ values q = some w := by
  by_cases hq : q = p
  · rw [hq, Function.update_self] at h
    cases h
  · exact ⟨hq, by rwa [Function.update_of_ne hq] at h⟩

end Values

/-! ### The invariant -/

/-- The call backs that values carry are those for their data, and they have not been invoked. -/
structure Inv (s : State) : Prop extends Kept s where
  carried : ∀ p v k, s.values p = some v → v.callBack = some k →
    s.attached[k]? = some v.data ∧ k ∉ s.invoked.map Prod.fst
  invoked_lt : ∀ x ∈ s.invoked, x.1 < s.attached.length

section Inv

variable {s s' : State} {op : Op} {p q : Place} {v : Value}

theorem inv_init : Inv system.init where
  exactly k hk := absurd hk (Nat.not_lt_zero k)
  timely x hx := by cases hx
  carried p v k hp := by cases hp
  invoked_lt x hx := by cases hx

theorem Inv.lt (h : Inv s) {k : Nat} (hp : s.values p = some v) (hk : v.callBack = some k) : k < s.attached.length :=
  (List.getElem?_eq_some_iff.1 (h.carried p v k hp hk).1).1

theorem Inv.length_not_mem (h : Inv s) : s.attached.length ∉ s.invoked.map Prod.fst := by
  intro hmem
  obtain ⟨x, hx, hlen⟩ := List.mem_map.1 hmem
  exact absurd (h.invoked_lt x hx) (Nat.not_lt.2 hlen.ge)

/-- Setting a value loses no call back of which another value remains. -/
theorem exists_carrier_set {k : Nat} (h : ∃ q w, s.values q = some w ∧ w.callBack = some k)
    (hold : ∀ w, s.values p = some w → w.callBack = some k →
      ∃ q u, q ≠ p ∧ s.values q = some u ∧ u.callBack = some k) :
    ∃ q w, (s.set p v).values q = some w ∧ w.callBack = some k := by
  obtain ⟨q, w, hne, hq, hw⟩ : ∃ q w, q ≠ p ∧ s.values q = some w ∧ w.callBack = some k := by
    obtain ⟨q, w, hq, hw⟩ := h
    by_cases hqp : q = p
    · exact hold w (hqp ▸ hq) hw
    · exact ⟨q, w, hqp, hq, hw⟩
  exact ⟨q, w, (State.set_values_of_ne hne).trans hq, hw⟩

theorem Inv.set (h : Inv s)
    (hv : ∀ k, v.callBack = some k → s.attached[k]? = some v.data ∧ k ∉ s.invoked.map Prod.fst)
    (hold : ∀ w k, s.values p = some w → w.callBack = some k →
      ∃ q u, q ≠ p ∧ s.values q = some u ∧ u.callBack = some k) :
    Inv (s.set p v) where
  exactly k hk := (h.exactly k hk).imp_right fun ⟨hnot, hcarrier⟩ =>
    ⟨hnot, exists_carrier_set hcarrier fun w hp => hold w k hp⟩
  timely := h.timely
  carried q w k hq hw := by
    by_cases hqp : q = p
    · rw [hqp, State.set_values, Option.some.injEq] at hq
      subst hq
      exact hv k hw
    · exact h.carried q w k ((State.set_values_of_ne hqp).symm.trans hq) hw
  invoked_lt := h.invoked_lt

theorem Inv.attach (h : Inv s)
    (hold : ∀ w k, s.values p = some w → w.callBack = some k →
      ∃ q u, q ≠ p ∧ s.values q = some u ∧ u.callBack = some k) :
    Inv { s.set p { v with callBack := some s.attached.length } with attached := s.attached ++ [v.data] } where
  exactly k hk := by
    rw [List.length_append, List.length_singleton] at hk
    rcases Nat.lt_succ_iff_lt_or_eq.1 hk with hlt | rfl
    · exact (h.exactly k hlt).imp_right fun ⟨hnot, hcarrier⟩ =>
        ⟨hnot, exists_carrier_set hcarrier fun w hp => hold w k hp⟩
    · exact .inr ⟨h.length_not_mem, p, _, State.set_values .., rfl⟩
  timely x hx := by
    show ∀ q w, x.2 q = some w → (s.attached ++ [v.data])[x.1]? ≠ some w.data
    rw [List.getElem?_append_left (h.invoked_lt x hx)]
    exact h.timely x hx
  carried q w k hq hw := by
    by_cases hqp : q = p
    · rw [hqp] at hq
      cases (State.set_values ..).symm.trans hq
      cases hw
      exact ⟨List.getElem?_concat_length, h.length_not_mem⟩
    · have hq' : s.values q = some w := (State.set_values_of_ne hqp).symm.trans hq
      exact ⟨(List.getElem?_append_left (h.lt hq' hw)).trans (h.carried q w k hq' hw).1, (h.carried q w k hq' hw).2⟩
  invoked_lt x hx := by
    rw [List.length_append, List.length_singleton]
    exact Nat.lt_succ_of_lt (h.invoked_lt x hx)

/-- The end of a value without a call back invokes nothing. -/
theorem Inv.drop (h : Inv s) (hp : s.values p = some v) (hv : v.callBack = none) :
    Inv { s with values := Function.update s.values p none } where
  exactly k hk := by
    refine (h.exactly k hk).imp_right fun ⟨hnot, q, w, hq, hw⟩ => ⟨hnot, q, w, ?_, hw⟩
    have hne : q ≠ p := by
      rintro rfl
      rw [hp, Option.some.injEq] at hq
      rw [← hq, hv] at hw
      cases hw
    exact (Function.update_of_ne hne _ _).trans hq
  timely := h.timely
  carried q w k hq := h.carried q w k (of_update_none hq).2
  invoked_lt := h.invoked_lt

/-- The call backs after one that was not invoked before. -/
theorem Inv.exactly_invoke (h : Inv s) {k : Nat} (hp : s.values p = some v) (hv : v.callBack = some k)
    (rest : Place → Option Value) {j : Nat} (hj : j < s.attached.length) :
    ((s.invoked ++ [(k, rest)]).map Prod.fst).count j = 1 ∨ j ∉ (s.invoked ++ [(k, rest)]).map Prod.fst ∧
      ∃ q w, Function.update s.values p none q = some w ∧ w.callBack = some j := by
  obtain ⟨-, hnot⟩ := h.carried p v k hp hv
  rw [List.map_append, List.map_singleton]
  by_cases hjk : j = k
  · left
    rw [hjk, List.count_append, List.count_eq_zero_of_not_mem hnot, List.count_singleton_self]
  · rw [List.count_append, List.count_singleton, if_neg (by simpa using Ne.symm hjk), Nat.add_zero, List.mem_append,
      List.mem_singleton, or_iff_left hjk]
    refine (h.exactly j hj).imp_right fun ⟨hnot', q, w, hq, hw⟩ => ⟨hnot', q, w, ?_, hw⟩
    have hne : q ≠ p := by
      rintro rfl
      rw [hp, Option.some.injEq] at hq
      rw [← hq, hv, Option.some.injEq] at hw
      exact hjk hw.symm
    exact (Function.update_of_ne hne _ _).trans hq

/-- The end of a value invokes its call back, which no other value carries if none has its data. -/
theorem Inv.invoke (h : Inv s) {k : Nat} (hp : s.values p = some v) (hv : v.callBack = some k)
    (halone : ∀ q w, q ≠ p → s.values q = some w → w.data ≠ v.data) :
    Inv { s with
      values := Function.update s.values p none
      invoked := s.invoked ++ [(k, Function.update s.values p none)] } := by
  obtain ⟨hk, hnot⟩ := h.carried p v k hp hv
  refine ⟨⟨fun j hj => h.exactly_invoke hp hv _ hj, fun x hx q w hq => ?_⟩, fun q w j hq hw => ?_, fun x hx => ?_⟩
  · rcases List.mem_append.1 hx with hx | hx
    · exact h.timely x hx q w hq
    · rw [List.mem_singleton] at hx
      subst hx
      obtain ⟨hne, hq⟩ := of_update_none hq
      show s.attached[k]? ≠ some w.data
      rw [hk, Ne, Option.some.injEq]
      exact (halone q w hne hq).symm
  · obtain ⟨hne, hq⟩ := of_update_none hq
    obtain ⟨hj, hnotj⟩ := h.carried q w j hq hw
    refine ⟨hj, ?_⟩
    show j ∉ (s.invoked ++ [_]).map Prod.fst
    rw [List.map_append, List.map_singleton, List.mem_append, List.mem_singleton, not_or]
    refine ⟨hnotj, fun hjk => halone q w hne hq ?_⟩
    rw [hjk, hk, Option.some.injEq] at hj
    exact hj.symm
  · rcases List.mem_append.1 hx with hx | hx
    · exact h.invoked_lt x hx
    · rw [List.mem_singleton] at hx
      rw [hx]
      exact h.lt hp hv

theorem Inv.next (h : Inv s) (hsafe : Harmless s op) (hs : step s op = some s') : Inv s' := by
  cases moves_of_step hs with
  | make hp =>
    refine h.set (fun k hk => by cases hk) fun w k hw => ?_
    cases hp.symm.trans hw
  | attach => exact h.attach fun w k => hsafe.replaced _ w k rfl
  | write hq hsource hp =>
    refine h.set (fun k hk => h.carried _ _ k hq hk) fun w k hw => ?_
    rcases hp with ⟨hnone, -⟩ | ⟨hreplaced, -⟩
    · cases hnone.symm.trans hw
    · exact hsafe.replaced _ w k hreplaced hw
  | self | absent => exact h
  | @destroy _ p v hp hop =>
    unfold State.destroy
    split
    · rename_i k hv
      exact h.invoke hp hv (hsafe.destroyed p v k hop hp hv)
    · rename_i hv
      exact h.drop hp hv

theorem inv_of_reachBy (h : system.ReachBy Harmless s) : Inv s :=
  h.invariant inv_init Inv.next

/-- Some value carries a call back that was not invoked. -/
theorem Kept.carrier (h : Kept s) {k : Nat} (hk : k < s.attached.length) (hnot : k ∉ s.invoked.map Prod.fst) :
    ∃ p v, s.values p = some v ∧ v.callBack = some k := by
  rcases h.exactly k hk with hone | ⟨-, hcarrier⟩
  · rw [List.count_eq_zero_of_not_mem hnot] at hone
    cases hone
  · exact hcarrier

/-- A call back that is carried after a value was set was carried by another value before. -/
theorem exists_other_of_set {k : Nat} (h : ∃ q w, (s.set p v).values q = some w ∧ w.callBack = some k)
    (hv : v.callBack = some k → ∃ q w, q ≠ p ∧ s.values q = some w ∧ w.callBack = some k) :
    ∃ q w, q ≠ p ∧ s.values q = some w ∧ w.callBack = some k := by
  obtain ⟨q, w, hq, hw⟩ := h
  by_cases hqp : q = p
  · rw [hqp] at hq
    cases (State.set_values ..).symm.trans hq
    exact hv hw
  · exact ⟨q, w, hqp, (State.set_values_of_ne hqp).symm.trans hq, hw⟩

/-- A call back that is not lost has another value that carries it. -/
theorem Inv.replaced_of_kept (h : Inv s) (hs : step s op = some s') (hkept : Kept s') {k : Nat}
    (hreplaced : op.replaced = some p) (hp : s.values p = some v) (hv : v.callBack = some k) :
    ∃ q w, q ≠ p ∧ s.values q = some w ∧ w.callBack = some k := by
  obtain ⟨-, hnot⟩ := h.carried p v k hp hv
  have hlt := h.lt hp hv
  cases moves_of_step hs with
  | attach =>
    cases hreplaced
    refine exists_other_of_set (hkept.carrier (by simpa using Nat.lt_succ_of_lt hlt) hnot) fun hlen => ?_
    exact absurd (Option.some.inj hlen) hlt.ne'
  | @write _ _ q v' hq hsource hp' =>
    obtain ⟨hreplaced', hne⟩ := hp'.resolve_left fun hnone => by cases hnone.2.symm.trans hreplaced
    cases hreplaced'.symm.trans hreplaced
    exact exists_other_of_set (hkept.carrier hlt hnot) fun hv' => ⟨q, v', hne, hq, hv'⟩
  | self hnone => cases hnone.symm.trans hreplaced
  | destroy _ hop => cases (Op.replaced_of_destroyed hop).symm.trans hreplaced
  | make | absent => cases hreplaced

/-- A call back that runs in time is that of the last value with the data. -/
theorem Inv.destroyed_of_kept (h : Inv s) (hs : step s op = some s') (hkept : Kept s') {k : Nat}
    (hdestroyed : op.destroyed = some p) (hp : s.values p = some v) (hv : v.callBack = some k) {w : Value} (hne : q ≠ p)
    (hq : s.values q = some w) : w.data ≠ v.data := by
  intro hdata
  cases moves_of_step hs with
  | destroy hp' hop =>
    cases hop.symm.trans hdestroyed
    cases hp'.symm.trans hp
    have hinvoked : (k, Function.update s.values p none) ∈ (s.destroy p v).invoked := by
      simp [State.destroy, hv]
    refine hkept.timely _ hinvoked q w ((Function.update_of_ne hne _ _).trans hq) ?_
    rw [State.destroy_attached, hdata]
    exact (h.carried p v k hp hv).1
  | write _ hsource => cases (Op.destroyed_of_source hsource).symm.trans hdestroyed
  | self _ hnone => cases hnone.symm.trans hdestroyed
  | absent hnone =>
    cases hdestroyed
    cases hnone.symm.trans hp
  | make | attach => cases hdestroyed

/-- A step after which every call back has run once and in time has done no harm. -/
theorem Inv.harmless (h : Inv s) (hs : step s op = some s') (hkept : Kept s') : Harmless s op where
  replaced _ _ _ hreplaced hp hv := h.replaced_of_kept hs hkept hreplaced hp hv
  destroyed _ _ _ hdestroyed hp hv _ _ hne hq := h.destroyed_of_kept hs hkept hdestroyed hp hv hne hq

end Inv

/-! ### Without sharing -/

/-- A value with a call back is the only one with its data. -/
def Sole (s : State) : Prop :=
  ∀ p v, s.values p = some v → v.callBack ≠ none → ∀ q w, q ≠ p → s.values q = some w → w.data ≠ v.data

section Sole

variable {s s' : State} {op : Op}

theorem Sole.harmless (h : Sole s) (hop : Unshared s op) : Harmless s op where
  replaced p v k hreplaced hp hv := by cases (hop.replaced p v hreplaced hp).symm.trans hv
  destroyed p v k _ hp hv := h p v hp (by rw [hv]; exact Option.some_ne_none k)

theorem Sole.set {p : Place} {v : Value} (h : Sole s)
    (hv : v.callBack ≠ none → ∀ q w, q ≠ p → s.values q = some w → w.data ≠ v.data)
    (hdata : ∀ q w, q ≠ p → s.values q = some w → w.callBack ≠ none → v.data ≠ w.data) : Sole (s.set p v) := by
  intro p₁ v₁ hp₁ hv₁ q w hne hq
  by_cases hp : p₁ = p
  · subst hp
    cases (State.set_values ..).symm.trans hp₁
    exact hv hv₁ q w hne ((State.set_values_of_ne hne).symm.trans hq)
  · have hp₁' := (State.set_values_of_ne hp).symm.trans hp₁
    by_cases hqp : q = p
    · subst hqp
      cases (State.set_values ..).symm.trans hq
      exact hdata p₁ v₁ hp hp₁' hv₁
    · exact h p₁ v₁ hp₁' hv₁ q w hne ((State.set_values_of_ne hqp).symm.trans hq)

theorem Sole.next (h : Sole s) (hop : Unshared s op) (hs : step s op = some s') : Sole s' := by
  cases moves_of_step hs with
  | make => exact h.set (fun hv => absurd rfl hv) fun q w _ hq hw => (hop.make _ _ rfl q w hq hw).symm
  | @attach p v hp =>
    exact h.set (fun _ => hop.attach p v rfl hp) fun q w hne hq hw => h q w hq hw p v hne.symm hp
  | @write _ p q v hq hsource =>
    have hv := hop.source q v hsource hq
    refine h.set (fun hne => absurd hv hne) fun p₁ w _ hp₁ hw => h p₁ w hp₁ hw q v ?_ hq
    rintro rfl
    cases hq.symm.trans hp₁
    exact hw hv
  | self | absent => exact h
  | destroy hp =>
    intro p₁ v₁ hp₁ hv₁ q w hne hq
    rw [State.destroy_values] at hp₁ hq
    exact h p₁ v₁ (of_update_none hp₁).2 hv₁ q w hne (of_update_none hq).2

theorem harmless_of_unshared (h : system.ReachBy Unshared s) : system.ReachBy Harmless s := by
  refine (h.invariant (P := fun s => Sole s ∧ system.ReachBy Harmless s) ⟨fun p v hp => (by cases hp), .init⟩
    fun ⟨hsole, hreach⟩ hop hs => ⟨hsole.next hop hs, .step hreach (hsole.harmless hop) hs⟩).2

end Sole

/-! ### The result -/

/-- In a run whose steps do no harm every call back runs once and in time, and the first step that does harm ends
this; a run in which no value with a call back is shared or replaced does no harm. -/
theorem call_backs_iff (s : State) :
    (system.ReachBy Harmless s → Kept s ∧ ∀ op s', step s op = some s' → (Kept s' ↔ Harmless s op)) ∧
      (system.ReachBy Unshared s → system.ReachBy Harmless s) := by
  refine ⟨fun h => ?_, harmless_of_unshared⟩
  have hinv := inv_of_reachBy h
  exact ⟨hinv.toKept, fun op s' hs => ⟨hinv.harmless hs, fun hop => (hinv.next hop hs).toKept⟩⟩

/-! ### Runs with values at few places -/

/-- The place that an operation writes. -/
def Op.target : Op → Place
  | .make p _ | .attach p | .copy p _ | .assign p _ => p
  | .store output name _ | .erase output name => .entry output name
  | .destroy n => .variable n

private theorem values_of_ne_target {s s' : State} {op : Op} (h : step s op = some s') {p : Place}
    (hp : p ≠ op.target) : s'.values p = s.values p := by
  have hset : ∀ (t : State) v, (t.set op.target v).values p = t.values p := fun t v => State.set_values_of_ne hp
  have hdestroy : ∀ v, (s.destroy op.target v).values p = s.values p := fun v => by
    rw [State.destroy_values, Function.update_of_ne hp]
  cases op with
  | make | copy | assign =>
    simp only [step, Option.ite_none_left_eq_some, Option.ite_none_right_eq_some, Option.map_eq_some_iff,
      Option.some.injEq] at h
    first
      | (obtain ⟨-, rfl⟩ := h; exact hset _ _)
      | (obtain ⟨-, v, -, rfl⟩ := h; exact hset _ _)
  | attach | destroy =>
    obtain ⟨v, -, rfl⟩ := Option.map_eq_some_iff.1 h
    first | exact hset _ _ | exact hdestroy v
  | store output name q =>
    obtain ⟨v, -, rfl⟩ := Option.map_eq_some_iff.1 h
    refine (hset _ v).trans ?_
    split
    · exact hset s _
    · rfl
  | erase output name =>
    simp only [step] at h
    split at h <;> cases h
    · exact hdestroy _
    · rfl

/-- A check for `Unshared` while values are at these places only. -/
def unsharedCheck (places : List Place) (s : State) (op : Op) : Bool :=
  places.contains op.target && (op.source.bind s.values).all (·.callBack.isNone) &&
    (op.replaced.bind s.values).all (·.callBack.isNone) &&
    match op with
    | .attach p => places.all fun q => q == p || (s.values q).all fun w => (s.values p).all fun v => w.data != v.data
    | .make _ data => places.all fun q => (s.values q).all fun w => w.callBack.isNone || w.data != data
    | _ => true

private theorem unshared_of_check {places : List Place} {s : State} {op : Op}
    (hout : ∀ p ∉ places, s.values p = none) (h : unsharedCheck places s op = true) : Unshared s op := by
  have hmem : ∀ {q w}, s.values q = some w → q ∈ places := by
    intro q w hq
    by_contra hmem
    rw [hout q hmem] at hq
    cases hq
  simp only [unsharedCheck, Bool.and_eq_true] at h
  obtain ⟨⟨⟨-, hsource⟩, hreplaced⟩, hop⟩ := h
  refine ⟨fun q w hs hq => ?_, fun p v hr hp => ?_, fun p v ho hp q w hne hq => ?_, fun p data ho q w hq hw => ?_⟩
  · simpa [hs, hq] using hsource
  · simpa [hr, hp] using hreplaced
  · subst ho
    have hdata := List.all_eq_true.1 hop q (hmem hq)
    simpa [hne, hq, hp] using hdata
  · subst ho
    have hdata := List.all_eq_true.1 hop q (hmem hq)
    simpa [hq, hw] using hdata

private theorem reachBy_of_check {places : List Place} {s : State}
    (h : (system.restrict (unsharedCheck places)).Reachable s) :
    system.ReachBy Unshared s ∧ ∀ p ∉ places, s.values p = none := by
  induction h with
  | init => exact ⟨.init, fun _ _ => rfl⟩
  | @step s s' op _ _ hs ih =>
    obtain ⟨hreach, hout⟩ := ih
    simp only [System.restrict, Option.ite_none_right_eq_some] at hs
    obtain ⟨hcheck, hs⟩ := hs
    refine ⟨.step hreach (unshared_of_check hout hcheck) hs, fun p hp => ?_⟩
    have htarget : op.target ∈ places := by
      simp only [unsharedCheck, Bool.and_eq_true] at hcheck
      simpa using hcheck.1.1.1
    have hne : p ≠ op.target := by
      rintro rfl
      exact hp htarget
    rw [values_of_ne_target hs hne, hout p hp]

/-- Two entries of a `ModelOutput`, one of them with a copy, and a variable of their own.  The call backs of all of
them run, the first one while the others are alive. -/
theorem call_backs_iff_entries : ∃ s, system.ReachBy Harmless s ∧ Kept s ∧ s.attached = [1, 3, 2] ∧
    s.invoked.map Prod.fst = [0, 2, 1] ∧
    ∃ alive, s.invoked.head? = some (0, alive) ∧ alive (.entry 0 "output1") = some ⟨2, none⟩ ∧
      alive (.variable 2) = some ⟨2, none⟩ ∧ alive (.variable 1) = some ⟨3, some 1⟩ := by
  obtain ⟨s, hs, hp⟩ := System.exists_reachable_of_run
    (system.restrict (unsharedCheck [.variable 0, .variable 1, .variable 2, .entry 0 "output0", .entry 0 "output1"]))
    [.make (.variable 0) 1, .store 0 "output0" (.variable 0), .destroy 0,
      .make (.variable 0) 2, .store 0 "output1" (.variable 0), .destroy 0, .attach (.entry 0 "output0"),
      .make (.variable 1) 3, .attach (.variable 1), .copy (.variable 2) (.entry 0 "output1"), .erase 0 "output0",
      .destroy 2, .attach (.entry 0 "output1"), .erase 0 "output1", .destroy 1]
    (fun s => s.attached == [1, 3, 2] && s.invoked.map Prod.fst == [0, 2, 1] && s.invoked.head?.any fun x =>
      x.1 == 0 && x.2 (.entry 0 "output1") == some ⟨2, none⟩ && x.2 (.variable 2) == some ⟨2, none⟩ &&
        x.2 (.variable 1) == some ⟨3, some 1⟩) (by decide)
  simp only [Bool.and_eq_true, beq_iff_eq, Option.any_eq_true] at hp
  obtain ⟨⟨hattached, hinvoked⟩, ⟨k, alive⟩, hhead, ⟨⟨rfl, hentry⟩, hcopy⟩, hvariable⟩ := hp
  have hreach := (call_backs_iff s).2 (reachBy_of_check hs).1
  exact ⟨s, hreach, ((call_backs_iff s).1 hreach).1, hattached, hinvoked, alive, hhead, hentry, hcopy, hvariable⟩

/-- A result of `infer` whose entry is copied by `std::move(model_out.primary())`: the call back runs at the end of
the copy and again at the end of the entry. -/
theorem moved_runs_twice : ¬∀ s, system.Reachable s → Kept s := by
  intro hall
  obtain ⟨s, hs, htwice⟩ := System.exists_reachable_of_run system
    [.make (.variable 0) 1, .store 0 "output0" (.variable 0), .destroy 0, .attach (.entry 0 "output0"),
      .copy (.variable 1) (.entry 0 "output0"), .destroy 1, .erase 0 "output0"]
    (fun s => s.invoked.map Prod.fst == [0, 0] && s.attached.length == 1) (by decide)
  rw [Bool.and_eq_true, beq_iff_eq, beq_iff_eq] at htwice
  have hcount := (hall s hs).exactly 0 (by omega)
  rw [htwice.1] at hcount
  simp at hcount

end OnnxInference.CallBacks
