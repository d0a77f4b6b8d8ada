import OnnxInference.Benchmark.Pipeline

/-!
# The end of a test

No thread of `run_pipeline` waits for ever for the mutex or for another thread: as long as the requests come through
one of them can go on.  Once the test has lasted long enough the threads take a bounded number of steps only, so that
`run_pipeline` returns (`finishes`).
-/

namespace OnnxInference.Benchmark.Pipeline

open Transition Latency

variable {config : Config} {modeName : String} {overrideBatch : Nat} {s s' : State} {l : Label}

/-- A step of a thread in which a request comes through, if there is one. -/
def Label.Succeeds : Label → Prop
  | .tick _ => False
  | .main ok | .client _ ok => ok = true

/-- A step of a thread. -/
def Label.works : Label → Bool
  | .tick _ => false
  | .main _ | .client _ _ => true

/-! ### Somebody can go on -/

/-- A client that has not ended can go on, or the one that has the mutex can. -/
theorem Inv.client_goes_on (h : Inv config s) (hs : s.terminated = false) {i : Nat} {c : Client}
    (hc : s.clients[i]? = some c) (hrun : c.pc ≠ .ended) :
    ∃ l s', l.Succeeds ∧ Pipeline.step config modeName overrideBatch s l = some s' := by
  have self : ∀ j, (clientStep config s j true).isSome = true →
      ∃ l s', l.Succeeds ∧ Pipeline.step config modeName overrideBatch s l = some s' := by
    intro j hj
    obtain ⟨s', hs'⟩ := Option.isSome_iff_exists.1 hj
    exact ⟨.client j true, s', rfl, by simp [Pipeline.step, hs, hs']⟩
  cases hpc : c.pc with
  | ended => exact absurd hpc hrun
  | check | start | submit | get | back | insert | unlock => exact self i (by simp [clientStep, hc, hpc])
  | lock =>
    cases hmutex : s.mutex with
    | none => exact self i (by simp [clientStep, hc, hpc, hmutex])
    | some j =>
      have hlt := h.mutex_lt j hmutex
      have hj : s.clients[j]? = some s.clients[j] := List.getElem?_eq_getElem hlt
      rcases (h.mutex j _ hj).2 hmutex with hpc' | hpc' <;> exact self j (by simp [clientStep, hj, hpc'])

theorem Inv.goes_on (h : Inv config s) (hs : s.terminated = false) (hreturned : ∀ r, s.main ≠ .returned r)
    (hthrew : s.main ≠ .threw) : ∃ l s', l.Succeeds ∧ Pipeline.step config modeName overrideBatch s l = some s' := by
  have self : (mainStep config modeName overrideBatch s true).isSome = true →
      ∃ l s', l.Succeeds ∧ Pipeline.step config modeName overrideBatch s l = some s' := by
    intro hm
    obtain ⟨s', hs'⟩ := Option.isSome_iff_exists.1 hm
    exact ⟨.main true, s', rfl, by simp [Pipeline.step, hs, hs']⟩
  cases hmain : s.main with
  | returned r => exact absurd hmain (hreturned r)
  | threw => exact absurd hmain hthrew
  | warmup | warmupGet | wallStart | reserve | wallEnd => exact self (by simp [mainStep, hmain])
  | spawn i => by_cases hlt : (i : Int) < config.concurrentClients <;> exact self (by simp [mainStep, hmain, hlt])
  | join i =>
    cases hc : s.clients[i]? with
    | none => exact self (by simp [mainStep, hmain, hc])
    | some c =>
      by_cases hended : c.pc = .ended
      · exact self (by simp [mainStep, hmain, hc, hended])
      · exact h.client_goes_on hs hc hended

/-! ### The steps after the deadline -/

/-- The steps that a client has still to take once the test has lasted long enough. -/
def Client.rest (config : Config) (c : Client) : Nat :=
  let more := config.minIterations - c.localLatencies.length
  match c.pc with
  | .check => if more = 0 then 4 else 5 * more + 9
  | .start => 5 * more + 8
  | .submit _ => 5 * more + 7
  | .get _ => 5 * more + 6
  | .back _ => 5 * more + 5
  | .lock => 3
  | .insert => 2
  | .unlock => 1
  | .ended => 0

/-- A client that is to be started. -/
def Client.first (config : Config) : Nat := Client.rest config ⟨.check, []⟩

def MainAt.rest (config : Config) : MainAt → Nat
  | .reserve => count config * (Client.first config + 2) + count config + 5
  | .spawn i => (count config - i) * (Client.first config + 2) + count config + 4
  | .join i => count config - i + 3
  | .wallEnd => 1
  | _ => 0

def State.rest (config : Config) (s : State) : Nat :=
  s.main.rest config + (s.clients.map (Client.rest config)).sum + (!s.terminated).toNat

/-- The test has lasted long enough. -/
def Late (config : Config) (s : State) : Prop :=
  (s.main.Measures ∨ s.main = .threw) ∧ config.testDurationSec ≤ s.now - s.wallStart

theorem Late.rest_lt (h : Late config s) {i : Nat} {ok : Bool} (hs : s.terminated = false)
    (hm : Move config modeName overrideBatch s (.client i ok) s') : s'.rest config < s.rest config := by
  have less : ∀ {c c' : Client} {z : State}, s.clients[i]? = some c → z.clients = s.clients.set i c' →
      z.main = s.main → z.terminated = s.terminated → c'.rest config < c.rest config →
        z.rest config < s.rest config := by
    intro c c' z hc hz hmain hterm hlt
    have hsum := Ledger.sum_map_set (Client.rest config) hc c'
    simp only [State.rest, hz, hmain, hterm]
    omega
  cases hm with
  | terminate => simp [State.rest, hs]
  | @advance _ _ c pc hc ht =>
    refine less hc rfl rfl rfl ?_
    cases ht with
    | again at_ more =>
      have hpos : config.minIterations - c.localLatencies.length ≠ 0 := by
        intro h0
        exact more ⟨h.2, by omega⟩
      simp only [Client.rest, at_, hpos, if_false]
      omega
    | leave at_ late enough =>
      have h0 : config.minIterations - c.localLatencies.length = 0 := by omega
      simp [Client.rest, at_, h0]
    | start at_ | submit at_ => simp [Client.rest, at_]
  | get hc at_ => exact less hc rfl rfl rfl (by simp [Client.rest, at_])
  | @back _ _ c t0 hc at_ =>
    refine less hc rfl rfl rfl ?_
    simp only [Client.rest, at_, List.length_append, List.length_singleton]
    split <;> omega
  | lock hc at_ => exact less hc rfl rfl rfl (by simp [Client.rest, at_])
  | insert hc at_ => exact less hc rfl rfl rfl (by simp [Client.rest, at_])
  | unlock hc at_ => exact less hc rfl rfl rfl (by simp [Client.rest, at_])

theorem Late.turn (h : Late config s) (hi : Inv config s) {m : MainAt} (ht : Turn config s m) :
    Late config (s.turn m) ∧ m.rest config < s.main.rest config := by
  have hlen := hi.length
  unfold Late at h ⊢
  cases ht with
  | submitWarm at_ | getWarm at_ | warm at_ => simp [at_, MainAt.Measures] at h
  | throwWarm at_ => rcases at_ with at_ | at_ <;> simp [at_, MainAt.Measures] at h
  | refuse at_ => exact ⟨⟨.inr rfl, h.2⟩, by simp [at_, MainAt.rest]⟩
  | reserve at_ nonneg => exact ⟨⟨.inl trivial, h.2⟩, by simp [at_, MainAt.rest]⟩
  | spawned at_ all =>
    refine ⟨⟨.inl trivial, h.2⟩, ?_⟩
    simp only [at_, MainAt.rest]
    omega
  | @joined i c at_ hc ended =>
    have hlt := (List.getElem?_eq_some_iff.1 hc).1
    rw [at_, MainAt.spawned] at hlen
    refine ⟨⟨.inl trivial, h.2⟩, ?_⟩
    simp only [at_, MainAt.rest]
    omega
  | joinedAll at_ none =>
    refine ⟨⟨.inl trivial, h.2⟩, ?_⟩
    simp only [at_, MainAt.rest]
    omega

theorem Late.step (h : Late config s) (hi : Inv config s)
    (hstep : Pipeline.step config modeName overrideBatch s l = some s') :
    Late config s' ∧ s'.rest config + l.works.toNat ≤ s.rest config := by
  obtain ⟨hs, hm⟩ := Move.of_step hstep
  cases l with
  | tick d =>
    cases hm with
    | tick nonneg =>
      refine ⟨⟨h.1, ?_⟩, Nat.le_refl _⟩
      have := h.2
      show config.testDurationSec ≤ s.now + d - s.wallStart
      linarith
  | client i ok =>
    refine ⟨?_, h.rest_lt hs hm⟩
    rcases hm.change_of_client with rfl | ⟨c, c', hch⟩
    · exact h
    · unfold Late
      rw [hch.main, hch.now, hch.wallStart]
      exact h
  | main ok =>
    cases hm with
    | turn ht =>
      obtain ⟨hlate, hlt⟩ := h.turn hi ht
      refine ⟨hlate, ?_⟩
      simp only [State.rest, State.turn, Label.works, Bool.toNat_true]
      omega
    | startWall at_ => simp [Late, at_, MainAt.Measures] at h
    | @spawn _ i at_ lt =>
      have hlt : i < count config := by
        unfold count
        omega
      have hfirst : Client.rest config ⟨.check, []⟩ = Client.first config := rfl
      have hmul : (count config - i) * (Client.first config + 2) =
          (count config - (i + 1)) * (Client.first config + 2) + (Client.first config + 2) := by
        rw [← Nat.succ_mul]
        congr 1
        omega
      refine ⟨⟨.inl trivial, h.2⟩, ?_⟩
      simp only [State.rest, State.turn, at_, MainAt.rest, Label.works, Bool.toNat_true, List.map_append,
        List.sum_append, List.map_singleton, List.sum_singleton, hfirst, hmul]
      omega
    | endWall at_ =>
      refine ⟨⟨.inl trivial, h.2⟩, ?_⟩
      simp only [State.rest, State.turn, MainAt.rest, at_, Label.works, Bool.toNat_true]
      omega

/-- `run_pipeline` comes to its end: no thread of it is blocked for ever, and once the test has lasted long enough its
threads take a bounded number of steps, however much time passes between them; the clock never goes back. -/
structure Finishes (config : Config) (modeName : String) (overrideBatch : Nat) (now : ℚ) (s : State) : Prop where
  goes_on : s.terminated = false → (∀ r, s.main ≠ .returned r) → s.main ≠ .threw →
    ∃ l s', l.Succeeds ∧ step config modeName overrideBatch s l = some s'
  steps_le : Late config s → ∀ ls s', (system config modeName overrideBatch now).run s ls = some s' →
    ls.countP Label.works ≤ s.rest config

theorem finishes {now : ℚ} (h : (system config modeName overrideBatch now).Reachable s) :
    Finishes config modeName overrideBatch now s := by
  have hi := reachable_inv h
  refine ⟨hi.goes_on, fun hlate ls s' hr => ?_⟩
  refine System.run_countP_le (I := fun s => Inv config s ∧ Late config s) ?_ ⟨hi, hlate⟩ hr
  rintro s l s' ⟨hi, hlate⟩ hs
  obtain ⟨hlate', hle⟩ := hlate.step hi hs
  exact ⟨⟨hi.step (Move.of_step hs).2, hlate'⟩, hle⟩

/-- Both requests are back and the test has lasted two seconds. -/
theorem finishes_twoClients : ∃ s, Late twoClients s ∧ s.clients.length = 2 ∧ Finishes twoClients "Sync" 0 0 s := by
  obtain ⟨s, hs, hp⟩ := System.exists_reachable_of_run (system twoClients "Sync" 0 0) twoRequests
    (fun s => s.main.spawned 2 == 2 && s.clients.length == 2 && decide (1 ≤ s.now - s.wallStart))
    (by decide +kernel)
  simp only [Bool.and_eq_true, beq_iff_eq, decide_eq_true_eq] at hp
  obtain ⟨⟨hspawned, hlen⟩, hlate⟩ := hp
  have hmeasures : s.main.Measures := by
    cases hm : s.main <;> simp [MainAt.spawned, hm] at hspawned ⊢ <;> trivial
  exact ⟨s, ⟨.inl hmeasures, hlate⟩, hlen, finishes hs⟩

end OnnxInference.Benchmark.Pipeline
