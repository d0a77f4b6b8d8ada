import OnnxInference.VideoInfer

/-!
# The runs of the video example

The program always ends (`ends`).  Of a video whose frames are all accepted the last ones may never be displayed, as
many as the queue holds and no more (`lost_iff`).
-/

namespace OnnxInference.VideoInfer

open Transition SPSCQueue

/-! ### The program ends -/

section Ends

variable {Frame : Type} {annotate : Frame → Option Frame} {default : Frame} {k : Nat} {video : List Frame}
  {q : Queue Frame} {s s' : State Frame} {l : Label}

/-- A step of the main thread. -/
def Label.ofMain : Label → Bool
  | .main => true
  | .display _ => false

/-- A step of the thread `display`. -/
def Label.ofDisplay : Label → Bool
  | .main => false
  | .display _ => true

/-- The steps that are left of the main thread: seven for a frame, and three at the end. -/
def State.mainRank (s : State Frame) : Nat :=
  match s.main with
  | .read => 7 * s.video.length + 3
  | .detect _ => 7 * s.video.length + 9
  | .push _ => 7 * s.video.length + 8
  | .pushing _ => 7 * s.video.length + 3 + accesses (s.queue.at_ .producer)
  | .stop => 2
  | .join => 1
  | .finished | .terminated => 0

/-- The steps that are left of `display` once the flag is cleared: six for a frame in the queue. -/
def State.displayRank (s : State Frame) : Nat :=
  match s.display with
  | .start | .clock => 6 * s.queue.count + 7
  | .pop => 6 * s.queue.count + 6
  | .popping => 6 * s.queue.count + 1 + accesses (s.queue.at_ .consumer)
  | .check => 1
  | .ended => 0

theorem Move.mainRank_le (m : Move annotate s l s') : s'.mainRank + l.ofMain.toNat ≤ s.mainRank := by
  cases m with
  | eof at_ | throw at_ | detect at_ | stop at_ | join at_ => simp [State.mainRank, Label.ofMain, at_]
  | read at_ hv =>
    simp only [State.mainRank, Label.ofMain, at_, hv, List.length_cons, Bool.toNat_true]
    omega
  | push at_ producer => simp [State.mainRank, Label.ofMain, at_, producer, accesses]
  | access at_ hacc | pushed at_ hacc | dropped at_ hacc =>
    have hlt := hacc.accesses
    simp only [State.mainRank, Label.ofMain, at_, Bool.toNat_true]
    omega
  | pop _ _ _ producer => simp [State.mainRank, Label.ofMain, producer]
  | look _ _ hacc | popped _ _ hacc | empty _ _ hacc => simp [State.mainRank, Label.ofMain, hacc.producer]
  | start | check | print | clock => exact le_rfl

theorem Move.displayRank_le (hi : Inv annotate k video s) (hc : Calls k s') (m : Move annotate s l s')
    (hstop : s.main.stopped = true) : s'.displayRank + l.ofDisplay.toNat ≤ s.displayRank := by
  have hrun : s.is_running = false := by rw [hi.threads.running, hstop]; rfl
  cases m with
  | eof at_ | read at_ | throw at_ | detect at_ | push at_ | access at_ | pushed at_ | dropped at_ | stop at_ =>
    rw [at_] at hstop
    cases hstop
  | join => exact le_rfl
  | start _ at_ | print _ at_ | clock _ at_ => simp [State.displayRank, Label.ofDisplay, at_]
  | pop _ at_ consumer _ hpushed hpopped =>
    simp [State.displayRank, Label.ofDisplay, at_, consumer, accesses, SPSCQueue.State.count, hpushed, hpopped]
  | look _ at_ hacc _ hpopped =>
    have hlt := hacc.accesses
    simp only [State.displayRank, Label.ofDisplay, at_, SPSCQueue.State.count, hacc.pushed, hpopped, Bool.toNat_true]
    omega
  | popped _ at_ hacc _ hpopped =>
    have hlt := hacc.accesses
    have hle : _ ≤ _ := hc.queue.ring.le
    simp only [hpopped, hacc.pushed, List.length_append, List.length_singleton] at hle
    simp only [State.displayRank, Label.ofDisplay, at_, SPSCQueue.State.count, hacc.pushed, hpopped, Bool.toNat_true,
      List.length_append, List.length_singleton]
    omega
  | empty _ at_ hacc =>
    have hlt := hacc.accesses
    simp only [State.displayRank, Label.ofDisplay, at_, Bool.toNat_true]
    omega
  | check _ at_ => simp [State.displayRank, Label.ofDisplay, at_, hrun]

theorem Inv.displayRank_le (h : Inv annotate 7 video s) : s.displayRank ≤ 769 := by
  have hroom := h.calls.queue.ring.room
  have hcount : s.queue.count ≤ 127 := by
    rw [SPSCQueue.State.count]
    omega
  have hle := accesses_le (s.queue.at_ .consumer)
  cases hd : s.display <;> simp only [State.displayRank, hd] <;> omega

/-- The program ends: as long as it has not, the main thread can go on, or waits for `display`, which can; the main
thread takes at most seven steps for a frame, and `display` at most as many as it needs to empty a full queue once
the flag is cleared. -/
theorem ends (hq : create default capacity = some q) (hs : (system annotate default q video).Reachable s) :
    (s.main.over = false → (step annotate default s .main).isSome = true ∨
      s.main = .join ∧ ∀ time, (step annotate default s (.display time)).isSome = true) ∧
    (∀ ls s', (system annotate default q video).run (system annotate default q video).init ls = some s' →
      ls.countP Label.ofMain ≤ 7 * video.length + 3) ∧
    (s.is_running = false → ∀ ls s', (system annotate default q video).run s ls = some s' →
      ls.countP Label.ofDisplay ≤ 769) := by
  have hi := reachable_inv hq hs
  refine ⟨fun hover => ?_, fun ls s' hrun => ?_, fun hflag ls s' hrun => ?_⟩
  · by_cases hjoin : s.main = .join ∧ s.display ≠ .ended
    · refine .inr ⟨hjoin.1, fun time => ?_⟩
      obtain ⟨s', hs', -⟩ :=
        exists_displayMove annotate default hi.calls hover hjoin.2 time
      simp [step, hover, hs']
    · obtain ⟨s', hs', -⟩ := exists_mainMove annotate default hi.calls hover fun hat => by
        by_contra hne
        exact hjoin ⟨hat, hne⟩
      exact .inl (by simp [step, hs'])
  · refine System.run_countP_le (I := Inv annotate 7 video) (μ := State.mainRank) (fun hI hstep => ?_)
      (reachable_inv hq .init) hrun
    exact ⟨hI.of_step hstep, (Move.of_step hI.calls hstep).1.mainRank_le⟩
  · have hstop : s.main.stopped = true := by
      have hr := hi.threads.running
      rw [hflag] at hr
      simpa using hr.symm
    refine (System.run_countP_le (M := system annotate default q video)
      (I := fun t => Inv annotate 7 video t ∧ t.main.stopped = true) (μ := State.displayRank) ?_ ⟨hi, hstop⟩ hrun).trans
      hi.displayRank_le
    rintro t l t' ⟨hI, ht⟩ hstep
    obtain ⟨m, hc⟩ := Move.of_step hI.calls hstep
    exact ⟨⟨hI.of_step hstep, (m.stopped hI ht).1⟩, m.displayRank_le hI hc ht⟩

theorem ends_lateFrames : ∃ q s, create 0 capacity = some q ∧
    (system (fun frame => some (frame + 10)) 0 q [5, 6, 7]).Reachable s ∧ s.is_running = false ∧
    ∀ ls s', (system (fun frame => some (frame + 10)) 0 q [5, 6, 7]).run s ls = some s' →
      ls.countP Label.ofDisplay ≤ 769 := by
  obtain ⟨s, hs, hp⟩ := System.exists_reachable_of_run
    (system (fun frame => some (frame + 10)) 0 ⟨List.replicate 128 0, 128, 0, 0⟩ [5, 6, 7]) lateFrames
    (fun s => !s.is_running) (by decide +kernel)
  have hflag : s.is_running = false := by simpa using hp
  exact ⟨_, s, create_capacity 0, hs, hflag, (ends (create_capacity 0) hs).2.2 hflag⟩

end Ends

/-! ### Frames that are never displayed -/

section Lost

variable {Frame : Type} {annotate : Frame → Option Frame} {default : Frame} {k : Nat} {video : List Frame}
  {q : Queue Frame} {s s' : State Frame}

/-- Some steps lead from one state to the other. -/
abbrev Leads (annotate : Frame → Option Frame) (default : Frame) : State Frame → State Frame → Prop :=
  Relation.ReflTransGen fun s s' => ∃ l, step annotate default s l = some s'

theorem Leads.reachable (h : Leads annotate default s s') (hs : (system annotate default q video).Reachable s) :
    (system annotate default q video).Reachable s' := by
  induction h with
  | refl => exact hs
  | tail _ hstep ih =>
    obtain ⟨l, hl⟩ := hstep
    exact .step ih trivial hl

theorem Inv.of_leads (hi : Inv annotate k video s) (h : Leads annotate default s s') : Inv annotate k video s' := by
  induction h with
  | refl => exact hi
  | tail _ hstep ih =>
    obtain ⟨l, hl⟩ := hstep
    exact ih.of_step hl

/-- If there is room, a call of `push` hands its frame over. -/
theorem leads_of_pushing (default : Frame) {frame : Frame} (hi : Inv annotate 7 video s) (hat : s.main = .pushing frame)
    (hroom : s.queue.count < 127) :
    ∃ t, Leads annotate default s t ∧ t.main = .read ∧ t.offered = s.offered ++ [(frame, true)] ∧
      t.video = s.video ∧ t.display = s.display ∧ t.queue.popped = s.queue.popped := by
  induction hn : accesses (s.queue.at_ .producer) using Nat.strongRecOn generalizing s with
  | _ n ih =>
    obtain ⟨s', hs', m, -⟩ := exists_mainMove annotate default hi.calls
      (by rw [hat]; rfl) (by rw [hat]; intro h; cases h)
    have hstep : step annotate default s .main = some s' := hs'
    cases m with
    | eof at_ | read at_ | throw at_ | detect at_ | push at_ | stop at_ | join at_ =>
      rw [hat] at at_
      cases at_
    | @access frame' queue at_ hacc _ hpushed =>
      obtain ⟨t, hleads, hmain, hoffered, hvideo, hdisplay, hpopped⟩ :=
        ih _ (hn ▸ hacc.accesses) (s := { s with queue := queue }) (hi.of_step hstep) hat
          (by simpa [SPSCQueue.State.count, hpushed, hacc.popped] using hroom) rfl
      exact ⟨t, .head ⟨_, hstep⟩ hleads, hmain, hoffered, hvideo, hdisplay, hpopped.trans hacc.popped⟩
    | pushed at_ hacc =>
      rw [hat] at at_
      cases at_
      exact ⟨_, .single ⟨_, hstep⟩, rfl, rfl, rfl, rfl, hacc.popped⟩
    | dropped at_ _ _ _ hfull =>
      rw [hi.calls.queue.ring.toNat_usable] at hfull
      omega

/-- If there is room, the next frame of the video is accepted. -/
theorem leads_of_read (default : Frame) {frame : Frame} {rest : List Frame} (hi : Inv annotate 7 video s)
    (hat : s.main = .read)
    (hv : s.video = frame :: rest) (hdetect : (annotate frame).isSome = true) (hroom : s.queue.count < 127) :
    ∃ t drawn, Leads annotate default s t ∧ t.main = .read ∧ t.offered = s.offered ++ [(drawn, true)] ∧
      t.video = rest ∧ t.display = s.display ∧ t.queue.popped = s.queue.popped := by
  obtain ⟨drawn, hdrawn⟩ := Option.isSome_iff_exists.1 hdetect
  have hread : step annotate default s .main = some { s with video := rest, main := .detect frame } := by
    simp only [step, mainStep, hat, hv]
  have hdraw : step annotate default { s with video := rest, main := .detect frame } .main =
      some { s with video := rest, main := .push drawn } := by
    simp only [step, mainStep, hdrawn]
  have hidle : (s.queue.at_ .producer).busy = false := by
    have hp := hi.calls.producing
    rwa [hat] at hp
  obtain ⟨queue, hcall, -, -, -, hpushed, hpopped, -⟩ :=
    exists_call default hi.calls.queue (l := .pushTail drawn) hidle rfl
  have hpush : step annotate default { s with video := rest, main := .push drawn } .main =
      some { s with queue := queue, video := rest, main := .pushing drawn } := by
    simp only [step, mainStep, hcall, Option.map_some]
  have hleads : Leads annotate default s { s with queue := queue, video := rest, main := .pushing drawn } :=
    .head ⟨_, hread⟩ (.head ⟨_, hdraw⟩ (.single ⟨_, hpush⟩))
  obtain ⟨t, hleads', hmain, hoffered, hvideo, hdisplay, hpopped'⟩ :=
    leads_of_pushing default (hi.of_leads hleads) rfl
      (by simpa [SPSCQueue.State.count, hpushed, hpopped] using hroom)
  exact ⟨t, drawn, hleads.trans hleads', hmain, hoffered, hvideo, hdisplay, hpopped'.trans hpopped⟩

/-- A call of `pop` takes a frame, or fails if there is none. -/
theorem leads_of_popping (default : Frame) (hi : Inv annotate k video s) (hover : s.main.over = false)
    (hat : s.display = .popping) :
    ∃ t, Leads annotate default s t ∧ t.main = s.main ∧ t.offered = s.offered ∧ t.video = s.video ∧
      ((t.display = .clock ∧ t.queue.popped.length = s.queue.popped.length + 1) ∨
      (t.display = .check ∧ t.queue.popped = s.queue.popped ∧ s.queue.count = 0)) := by
  induction hn : accesses (s.queue.at_ .consumer) using Nat.strongRecOn generalizing s with
  | _ n ih =>
    obtain ⟨s', hs', m, -⟩ := exists_displayMove annotate default hi.calls hover
      (by rw [hat]; intro h; cases h) 0
    have hstep : step annotate default s (.display 0) = some s' := by simp [step, hover, hs']
    cases m with
    | start _ at_ | pop _ at_ | check _ at_ | print _ at_ | clock _ at_ =>
      rw [hat] at at_
      cases at_
    | @look _ queue _ at_ hacc _ hpopped =>
      obtain ⟨t, hleads, hmain, hoffered, hvideo, hout⟩ :=
        ih _ (hn ▸ hacc.accesses) (s := { s with queue := queue }) (hi.of_step hstep) hover hat rfl
      refine ⟨t, .head ⟨_, hstep⟩ hleads, hmain, hoffered, hvideo, ?_⟩
      simpa [SPSCQueue.State.count, hacc.pushed, hpopped] using hout
    | popped _ _ hacc _ hpopped =>
      exact ⟨_, .single ⟨_, hstep⟩, rfl, rfl, rfl, .inl ⟨rfl, by simp [hpopped]⟩⟩
    | empty _ _ hacc _ hpopped hcount =>
      exact ⟨_, .single ⟨_, hstep⟩, rfl, rfl, rfl, .inr ⟨rfl, hpopped, hcount⟩⟩

/-- A round of `display`, up to its look at the flag if the pop fails. -/
theorem leads_of_pop (default : Frame) (hi : Inv annotate k video s) (hover : s.main.over = false)
    (hat : s.display = .pop) :
    ∃ t, Leads annotate default s t ∧ t.main = s.main ∧ t.offered = s.offered ∧ t.video = s.video ∧
      ((t.display = .pop ∧ t.queue.popped.length = s.queue.popped.length + 1) ∨
      (t.display = .check ∧ t.queue.popped = s.queue.popped ∧ s.queue.count = 0)) := by
  have hidle : (s.queue.at_ .consumer).busy = false := by
    have hc := hi.calls.consuming
    rwa [hat] at hc
  obtain ⟨queue, hcall, -, -, -, hpushed, hpopped, -⟩ :=
    exists_call default hi.calls.queue (p := .consumer) (l := .popHead) hidle rfl
  have hpop : step annotate default s (.display 0) = some { s with queue := queue, display := .popping } := by
    simp only [step, hover, displayStep, hat, hcall, Option.map_some]
    rfl
  obtain ⟨t, hleads, hmain, hoffered, hvideo, ⟨hclock, hlen⟩ | ⟨hcheck, hsame, hcount⟩⟩ :=
    leads_of_popping default (hi.of_step hpop) hover rfl
  · have hover' : t.main.over = false := hmain ▸ hover
    obtain ⟨t', ht', m, -⟩ := exists_displayMove annotate default
      ((hi.of_step hpop).of_leads hleads).calls hover' (by rw [hclock]; intro h; cases h) 0
    have hstep : step annotate default t (.display 0) = some t' := by simp [step, hover', ht']
    refine ⟨t', (Relation.ReflTransGen.head ⟨_, hpop⟩ hleads).tail ⟨_, hstep⟩, ?_⟩
    have hlen' : t.queue.popped.length = s.queue.popped.length + 1 := by simpa [hpopped] using hlen
    cases m with
    | start _ at_ | pop _ at_ | look _ at_ | popped _ at_ | empty _ at_ | check _ at_ =>
      rw [hclock] at at_
      cases at_
    | print | clock => exact ⟨hmain, hoffered, hvideo, .inl ⟨rfl, hlen'⟩⟩
  · refine ⟨t, .head ⟨_, hpop⟩ hleads, hmain, hoffered, hvideo, .inr ⟨hcheck, hsame.trans hpopped, ?_⟩⟩
    simpa [SPSCQueue.State.count, hpushed, hpopped] using hcount

/-- Before the main thread reads a frame all those before have been accepted. -/
structure Ready (annotate : Frame → Option Frame) (video : List Frame) (s : State Frame) : Prop where
  inv : Inv annotate 7 video s
  main : s.main = .read
  accepted : ∀ o ∈ s.offered, o.2 = true

namespace Ready

theorem offered_length (h : Ready annotate video s) : s.offered.length + s.video.length = video.length := by
  have hframes := congrArg List.length h.inv.frames
  simpa [State.frames, h.main, Main.ahead] using hframes

theorem pushed_length (h : Ready annotate video s) : s.queue.pushed.length = s.offered.length := by
  rw [h.inv.pushed, VideoInfer.accepted, List.filter_eq_self.2 h.accepted, List.length_map]

/-- The next frame is accepted, and `display` waits. -/
theorem accept (default : Frame) (h : Ready annotate video s) {frame : Frame} {rest : List Frame}
    (hv : s.video = frame :: rest) (hdetect : (annotate frame).isSome = true) (hroom : s.queue.count < 127) :
    ∃ t, Leads annotate default s t ∧ Ready annotate video t ∧ t.video = rest ∧ t.display = s.display ∧
      t.queue.popped = s.queue.popped := by
  obtain ⟨t, drawn, hleads, hmain, hoffered, hvideo, hdisplay, hpopped⟩ :=
    leads_of_read default h.inv h.main hv hdetect hroom
  refine ⟨t, hleads, ⟨h.inv.of_leads hleads, hmain, fun o ho => ?_⟩, hvideo, hdisplay, hpopped⟩
  rw [hoffered, List.mem_append, List.mem_singleton] at ho
  rcases ho with ho | rfl
  · exact h.accepted o ho
  · rfl

/-- A round of `display` while the main thread waits. -/
theorem round (default : Frame) (h : Ready annotate video s) (hd : s.display = .pop) :
    ∃ t, Leads annotate default s t ∧ Ready annotate video t ∧ t.video = s.video ∧
      ((t.display = .pop ∧ t.queue.popped.length = s.queue.popped.length + 1) ∨
      (t.display = .check ∧ t.queue.popped = s.queue.popped ∧ s.queue.count = 0)) := by
  obtain ⟨t, hleads, hmain, hoffered, hvideo, hout⟩ :=
    leads_of_pop default h.inv (by rw [h.main]; rfl) hd
  exact ⟨t, hleads, ⟨h.inv.of_leads hleads, hmain.trans h.main, hoffered ▸ h.accepted⟩, hvideo, hout⟩

/-- One by one, each of the next frames is accepted and displayed. -/
theorem show_all (default : Frame) (h : Ready annotate video s) (hd : s.display = .pop) (hcount : s.queue.count = 0)
    {frames rest : List Frame} (hv : s.video = frames ++ rest)
    (hdetect : ∀ frame ∈ frames, (annotate frame).isSome = true) :
    ∃ t, Leads annotate default s t ∧ Ready annotate video t ∧ t.video = rest ∧ t.display = .pop ∧
      t.queue.count = 0 := by
  induction frames generalizing s with
  | nil => exact ⟨s, .refl, h, hv, hd, hcount⟩
  | cons frame frames ih =>
    rw [List.forall_mem_cons] at hdetect
    rw [List.cons_append] at hv
    obtain ⟨s₁, hleads₁, h₁, hv₁, hd₁, hpopped₁⟩ := h.accept default hv hdetect.1 (by omega)
    obtain ⟨s₂, hleads₂, h₂, hv₂, hout⟩ := h₁.round default (hd₁.trans hd)
    have hle := h.inv.calls.queue.ring.le
    have hlen := h.offered_length
    have hlen₁ := h₁.offered_length
    have hlen₂ := h₂.offered_length
    have hpushed := h.pushed_length
    have hpushed₁ := h₁.pushed_length
    have hpushed₂ := h₂.pushed_length
    rw [hv] at hlen
    rw [hv₁] at hlen₁
    rw [hv₂, hv₁] at hlen₂
    simp only [List.length_cons, SPSCQueue.State.count] at hlen hcount
    rcases hout with ⟨hd₂, hpopped₂⟩ | ⟨-, -, hempty⟩
    · have hcount₂ : s₂.queue.count = 0 := by
        rw [SPSCQueue.State.count, hpopped₂, hpopped₁]
        omega
      obtain ⟨t, hleads, ht⟩ := ih h₂ hd₂ hcount₂ (hv₂.trans hv₁) hdetect.2
      exact ⟨t, (hleads₁.trans hleads₂).trans hleads, ht⟩
    · rw [SPSCQueue.State.count, hpopped₁] at hempty
      omega

/-- If they all fit in, the frames that are left are accepted while `display` waits. -/
theorem accept_all (default : Frame) (h : Ready annotate video s) (hroom : s.queue.count + s.video.length ≤ 127)
    (hdetect : ∀ frame ∈ s.video, (annotate frame).isSome = true) :
    ∃ t, Leads annotate default s t ∧ Ready annotate video t ∧ t.video = [] ∧ t.display = s.display ∧
      t.queue.popped = s.queue.popped := by
  induction hv : s.video generalizing s with
  | nil => exact ⟨s, .refl, h, hv, rfl, rfl⟩
  | cons frame rest ih =>
    rw [hv, List.forall_mem_cons] at hdetect
    rw [hv, List.length_cons] at hroom
    obtain ⟨s₁, hleads₁, h₁, hv₁, hd₁, hpopped₁⟩ := h.accept default hv hdetect.1 (by omega)
    have hlen := h.offered_length
    have hlen₁ := h₁.offered_length
    have hpushed := h.pushed_length
    have hpushed₁ := h₁.pushed_length
    rw [hv, List.length_cons] at hlen
    rw [hv₁] at hlen₁
    have hle := h.inv.calls.queue.ring.le
    have hroom₁ : s₁.queue.count + s₁.video.length ≤ 127 := by
      simp only [SPSCQueue.State.count] at hroom ⊢
      rw [hv₁, hpopped₁]
      omega
    obtain ⟨t, hleads, ht, htv, htd, htp⟩ := ih h₁ hroom₁ (hv₁.symm ▸ hdetect.2) hv₁
    exact ⟨t, hleads₁.trans hleads, ht, htv, htd.trans hd₁, htp.trans hpopped₁⟩

/-- If the last pop has failed, the program ends with what has been displayed so far. -/
theorem finish (default : Frame) (h : Ready annotate video s) (hv : s.video = []) (hd : s.display = .check) :
    ∃ t, Leads annotate default s t ∧ t.main = .finished ∧ t.offered = s.offered ∧ t.queue = s.queue := by
  have heof : step annotate default s .main = some { s with main := .stop } := by
    simp only [step, mainStep, h.main, hv]
  have hstop : step annotate default { s with main := .stop } .main =
      some { s with is_running := false, main := .join } := rfl
  have hcheck : step annotate default { s with is_running := false, main := .join } (.display 0) =
      some { s with is_running := false, main := .join, display := .ended } := by
    simp [step, displayStep, Main.over, hd]
  have hjoin : step annotate default { s with is_running := false, main := .join, display := .ended } .main =
      some { s with is_running := false, main := .finished, display := .ended } := rfl
  exact ⟨_, .head ⟨_, heof⟩ (.head ⟨_, hstop⟩ (.head ⟨_, hcheck⟩ (.single ⟨_, hjoin⟩))), rfl, rfl, rfl⟩

end Ready

/-- If every frame is detected and accepted, any number of the last ones that fits into the queue may never be
displayed, and no greater number. -/
theorem lost_iff (hq : create default capacity = some q) (hdetect : ∀ frame ∈ video, (annotate frame).isSome = true)
    {m : Nat} :
    (∃ s, (system annotate default q video).Reachable s ∧ s.main = .finished ∧ (∀ o ∈ s.offered, o.2 = true) ∧
      s.queue.pushed.length = s.queue.popped.length + m) ↔ m ≤ video.length ∧ m ≤ 127 := by
  constructor
  · rintro ⟨s, hs, hfinished, haccepted, hlost⟩
    have hi := reachable_inv hq hs
    have hd := hi.promises
    have hlen := congrArg List.length (hd.finished hfinished)
    have hpushed : s.queue.pushed.length = s.offered.length := by
      rw [hi.pushed, accepted, List.filter_eq_self.2 haccepted, List.length_map]
    have hbounded := hd.bounded
    rw [← hi.pushed] at hbounded
    simp only [List.length_map] at hlen
    omega
  · rintro ⟨hm, hm'⟩
    have hstart : step annotate default (system annotate default q video).init (.display 0) =
        some { (system annotate default q video).init with display := .pop } := rfl
    have hready : Ready annotate video { (system annotate default q video).init with display := .pop } :=
      ⟨(reachable_inv hq .init).of_step hstart, rfl, by simp [system]⟩
    have hsplit := List.take_append_drop (video.length - m) video
    obtain ⟨s₁, hleads₁, h₁, hv₁, hd₁, hcount₁⟩ := hready.show_all default rfl rfl
      (hsplit.symm : video = _) fun frame hframe => hdetect frame (List.mem_of_mem_take hframe)
    obtain ⟨s₂, hleads₂, h₂, hv₂, hout⟩ := h₁.round default hd₁
    have hle₁ := h₁.inv.calls.queue.ring.le
    have hle₂ := h₂.inv.calls.queue.ring.le
    have hpushed₁ := h₁.pushed_length
    have hpushed₂ := h₂.pushed_length
    have hlen₁ := h₁.offered_length
    have hlen₂ := h₂.offered_length
    rw [SPSCQueue.State.count] at hcount₁
    rw [hv₁, List.length_drop] at hlen₁
    rw [hv₂, hv₁, List.length_drop] at hlen₂
    obtain ⟨hd₂, hpopped₂⟩ : s₂.display = .check ∧ s₂.queue.popped = s₁.queue.popped := by
      rcases hout with ⟨-, hpop⟩ | ⟨hcheck, hpopped, -⟩
      · omega
      · exact ⟨hcheck, hpopped⟩
    have hroom : s₂.queue.count + s₂.video.length ≤ 127 := by
      rw [SPSCQueue.State.count, hpopped₂, hv₂, hv₁, List.length_drop]
      omega
    obtain ⟨s₃, hleads₃, h₃, hv₃, hd₃, hpopped₃⟩ := h₂.accept_all default hroom fun frame hframe => by
      rw [hv₂, hv₁] at hframe
      exact hdetect frame (List.mem_of_mem_drop hframe)
    obtain ⟨t, hleads, hfinished, hoffered, hqueue⟩ := h₃.finish default hv₃ (hd₃.trans hd₂)
    have hlen₃ := h₃.offered_length
    have hpushed₃ := h₃.pushed_length
    refine ⟨t, ?_, hfinished, hoffered ▸ h₃.accepted, ?_⟩
    · have hall : Leads annotate default (system annotate default q video).init t :=
        .head ⟨_, hstart⟩ (((hleads₁.trans hleads₂).trans hleads₃).trans hleads)
      exact hall.reachable .init
    · rw [hqueue, hpopped₃, hpopped₂]
      rw [hv₃, List.length_nil] at hlen₃
      omega

/-- Of a video of three frames all may be lost, and no more. -/
theorem lost_iff_three : ∃ q, create 0 capacity = some q ∧ ∀ m : Nat,
    (∃ s, (system (fun frame => some (frame + 10)) 0 q [5, 6, 7]).Reachable s ∧ s.main = .finished ∧
      (∀ o ∈ s.offered, o.2 = true) ∧ s.queue.pushed.length = s.queue.popped.length + m) ↔ m ≤ 3 := by
  refine ⟨_, create_capacity 0, fun m => (lost_iff (create_capacity 0) (fun _ _ => rfl)).trans ?_⟩
  exact and_iff_left_of_imp fun h => h.trans (by decide)

end Lost

end OnnxInference.VideoInfer
