import JarLaunch.Proofs.Fate

/-! The actions that lie ahead of a world are as many as its effort reckons with, as long as no
handler leaves the choice of a further handler to a launcher. Then a wait comes to its end. -/
namespace JarLaunch

/-- A handler whose launches come with handlers of their own, and so do theirs. -/
def Handler.selfContained : Handler → Bool
  | .launches _ none => false
  | .launches _ (some h) => h.counts && h.selfContained
  | _ => true

namespace Launch

/-- A launch all of whose actions are reckoned with: it has the child that it waits for, and its
handler is self-contained. -/
structure Reckoned (l : Launch) : Prop where
  manned : l.stage.isOpen → (∀ f, l.stage ≠ .unstarted f) → l.child.isSome
  handled : ∀ h, l.handler = some h → h.selfContained
  asked : ∀ target handler, l.stage = .asking target handler →
    l.handler = some (.launches target handler)

def followUp (l : Launch) : Nat := (l.handler.map World.handlerEffort).getD 0

def effort (l : Launch) : Nat := World.runEffort (.accepted l)

theorem effort_of_open {l : Launch} (isOpen : l.stage.isOpen) :
    l.effort = l.stage.remaining + l.followUp := by
  cases stage : l.stage <;> simp_all [effort, World.runEffort, Run.launch?, followUp, Stage.isOpen]

theorem deliver_reckoned {l : Launch} (handled : ∀ h, l.handler = some h → h.selfContained)
    (now : Instant) (c : Completion) :
    (l.deliver now c).Reckoned ∧ (l.deliver now c).effort ≤ 1 + l.followUp := by
  have frame := l.deliver_frame now c
  have handler : (l.deliver now c).handler = l.handler := congrArg (·.2.2.2.2.1) frame
  have closed := (l.deliver_calls now c).2
  refine ⟨⟨fun isOpen => ?_, fun h has => handled h (handler.symm.trans has), ?_⟩, ?_⟩
  · rw [closed] at isOpen
    cases isOpen
  · intro target further stage
    rw [handler]
    unfold deliver at stage
    split at stage <;> simp_all [goTo]
  · unfold deliver
    split <;> rename_i has <;>
      simp [effort, World.runEffort, Run.launch?, goTo, followUp, has, Stage.remaining,
        World.handlerEffort]

section
variable {l l' : Launch}

theorem Reckoned.nearer (h : l.Reckoned) (was : l.stage.isOpen) (isOpen : l'.stage.isOpen)
    (handler : l'.handler = l.handler) (manned : l'.child.isSome)
    (less : l'.stage.remaining < l.stage.remaining) : l'.Reckoned ∧ l'.effort < l.effort := by
  refine ⟨⟨fun _ _ => manned, fun k has => h.handled k (handler.symm.trans has), ?_⟩, ?_⟩
  · intro target further stage
    rw [stage] at isOpen
    cases isOpen
  · have same : l'.followUp = l.followUp := by rw [followUp, followUp, handler]
    rw [effort_of_open isOpen, effort_of_open was, same]
    exact Nat.add_lt_add_right less _

theorem Reckoned.delivered (h : l.Reckoned) (was : l.stage.isOpen)
    (several : 2 ≤ l.stage.remaining) (l' : Launch) (handler : l'.handler = l.handler)
    (now : Instant) (c : Completion) :
    (l'.deliver now c).Reckoned ∧ (l'.deliver now c).effort < l.effort := by
  obtain ⟨reckoned, le⟩ := deliver_reckoned
    (fun k has => h.handled k (handler.symm.trans has)) now c
  have same : l'.followUp = l.followUp := by rw [followUp, followUp, handler]
  refine ⟨reckoned, ?_⟩
  rw [effort_of_open was]
  omega

theorem Reckoned.ended (h : l.Reckoned) (l' : Launch) (stage : l'.stage = .ended)
    (handler : l'.handler = l.handler) : l'.Reckoned ∧ l'.effort = 0 := by
  refine ⟨⟨?_, fun k has => h.handled k (handler.symm.trans has), ?_⟩, ?_⟩
  · simp [stage, Stage.isOpen]
  · simp [stage]
  · simp [effort, World.runEffort, Run.launch?, stage, Stage.remaining]

theorem expire_reckoned (h : l.Reckoned) (was : l.stage.isOpen) (many : 5 ≤ l.stage.remaining)
    (now : Instant) (child : Child) (timeout : Value) :
    (l.expire now child timeout).Reckoned ∧ (l.expire now child timeout).effort < l.effort := by
  refine h.nearer was expire_open.1 ?_ ?_ ?_
  · rw [expire_eq]
  · rw [expire_eq]
    rfl
  · rw [expire_eq]
    dsimp only
    split
    · exact Nat.lt_of_lt_of_le (by decide : 2 < 5) many
    · exact Nat.lt_of_lt_of_le (by decide : 4 < 5) many

theorem strike_reckoned (h : l.Reckoned) (was : l.stage.isOpen) (many : 4 ≤ l.stage.remaining)
    (now : Instant) (child : Child) :
    (l.strike now child).Reckoned ∧ (l.strike now child).effort < l.effort := by
  refine h.nearer was strike_open.1 ?_ ?_ ?_
  · rw [strike_eq]
  · rw [strike_eq]
    rfl
  · rw [strike_eq]
    dsimp only
    split
    · exact Nat.lt_of_lt_of_le (by decide : 2 < 4) many
    · exact Nat.lt_of_lt_of_le (by decide : 3 < 4) many

theorem embark_reckoned (h : l.Reckoned) (stage : l.stage = .fresh) {child : Child}
    (has : l.child = some child) (now : Instant) (timeout : Value) :
    (l.embark now child timeout).Reckoned ∧ (l.embark now child timeout).effort < l.effort := by
  have was : l.stage.isOpen := by rw [stage]; rfl
  have much : l.stage.remaining = 6 := by rw [stage]; rfl
  have manned : l.child.isSome := by rw [has]; rfl
  unfold embark
  split
  · exact h.nearer was rfl rfl manned (by rw [much]; exact Nat.le_refl 6)
  · exact h.nearer was rfl rfl manned (by rw [much]; exact Nat.le_refl 6)
  · exact expire_reckoned h was (by omega) now child timeout
  · obtain ⟨reckoned, none⟩ := h.ended (l.goTo .ended) rfl rfl
    exact ⟨reckoned, by rw [none, effort_of_open was]; omega⟩

theorem actWith_reckoned (h : l.Reckoned) (was : l.stage.isOpen)
    (started : ∀ f, l.stage ≠ .unstarted f) {child : Child} (has : l.child = some child)
    (now : Instant) (timeout : Value) :
    (l.actWith now timeout child).Reckoned ∧
      (l.actWith now timeout child).effort < l.effort := by
  have manned : l.child.isSome := by rw [has]; rfl
  cases stage : l.stage with
  | unstarted f => exact (started f stage).elim
  | fresh =>
    have reading : (l.startReading now child).Reckoned := ⟨h.manned, h.handled, h.asked⟩
    simp only [actWith, stage]
    exact embark_reckoned reading stage has now timeout
  | watching deadline =>
    have much : l.stage.remaining = 5 := by rw [stage]; rfl
    simp only [actWith, stage]
    split
    · exact h.delivered was (by omega) (l.note now _) rfl now _
    · exact expire_reckoned h was (by omega) now child timeout
  | terminating bound =>
    have much : l.stage.remaining = 4 := by rw [stage]; rfl
    simp only [actWith, stage]
    split
    · exact h.nearer was rfl rfl manned (by rw [much]; exact Nat.le_add_left 3 1)
    · exact strike_reckoned h was (by omega) now child
  | killing =>
    have much : l.stage.remaining = 3 := by rw [stage]; rfl
    simp only [actWith, stage]
    exact h.nearer was rfl rfl manned (by rw [much]; exact Nat.le_refl 3)
  | draining bound =>
    have much : l.stage.remaining = 2 := by rw [stage]; rfl
    simp only [actWith, stage]
    split
    · exact h.delivered was (by omega) (l.note now _) rfl now _
    · exact h.delivered was (by omega) ((l.stopReading.note now _).note now _) rfl now _
  | dozing _ _ _ | lingering _ | asking _ _ | ended => simp [stage, Stage.isOpen] at was

theorem act_reckoned (h : l.Reckoned) {t : Instant} (due : l.next = some t) (timeout : Value) :
    (l.act t timeout).Reckoned ∧ (l.act t timeout).effort < l.effort := by
  have handler := l.act_handler t timeout
  have here : (l.awake t).Reckoned := ⟨h.manned, h.handled, h.asked⟩
  cases stage : l.stage with
  | unstarted f =>
    have was : l.stage.isOpen := by rw [stage]; rfl
    have acts : l.act t timeout = (l.awake t).deliver t ⟨some f, [], []⟩ := by simp [act, stage]
    rw [acts]
    exact h.delivered was (by rw [stage]; exact Nat.le_refl 2) (l.awake t) rfl t _
  | fresh | watching _ | terminating _ | killing | draining _ =>
    have was : l.stage.isOpen := by rw [stage]; rfl
    have started : ∀ f, l.stage ≠ .unstarted f := by simp [stage]
    obtain ⟨child, has⟩ := Option.isSome_iff_exists.mp (h.manned was started)
    rw [act_eq_actWith was started has]
    exact actWith_reckoned here was started has t timeout
  | dozing _ _ _ | lingering _ | asking _ _ =>
    obtain ⟨reckoned, none⟩ := h.ended (l.act t timeout) (by simp [act, stage, goTo])
      handler
    refine ⟨reckoned, ?_⟩
    rw [none]
    simp only [effort, World.runEffort, Run.launch?, stage, Stage.remaining]
    omega
  | ended => simp [next, awaited, stage] at due

theorem create_reckoned {launcher : String} {handler : Option Handler × Recipient} {now : Instant}
    {pid : Nat} {command : List Value} {spawn : Spawn}
    (created : create launcher handler now pid command spawn = .ok l)
    (handled : ∀ h, handler.1 = some h → h.selfContained) :
    l.Reckoned ∧ l.effort ≤ 6 + (handler.1.map World.handlerEffort).getD 0 := by
  unfold create at created
  dsimp only at created
  split at created
  · cases created
  · cases created
    refine ⟨⟨fun _ started => (started _ rfl).elim, handled, fun _ _ h => nomatch h⟩, ?_⟩
    exact Nat.add_le_add_right (by decide : 2 ≤ 6) _
  · cases created
    exact ⟨⟨fun _ _ => rfl, handled, fun _ _ h => nomatch h⟩, Nat.le_refl _⟩

end

end Launch

namespace World

theorem effort_eq (w : World) : w.effort = 1 + (w.runs.map runEffort).sum := rfl

theorem sum_map_set (f : Run → Nat) {rs : List Run} {i : Nat} {r : Run} (there : rs[i]? = some r)
    (r' : Run) : ((rs.set i r').map f).sum + f r = (rs.map f).sum + f r' := by
  induction rs generalizing i with
  | nil => cases there
  | cons x rs ih =>
    cases i with
    | zero =>
      cases Option.some.inj there
      simp only [List.set_cons_zero, List.map_cons, List.sum_cons]
      omega
    | succ i =>
      have h := ih there
      simp only [List.set_cons_succ, List.map_cons, List.sum_cons]
      omega

/-- All actions that lie ahead are reckoned with. -/
def Reckoned (w : World) : Prop := ∀ l, .accepted l ∈ w.runs → l.Reckoned

section
variable {w : World}

theorem made_reckoned (target : Target) (handler : Option Handler)
    (handled : ∀ h, (w.handlerFor target handler).1 = some h → h.selfContained) :
    (∀ l, w.made target handler = .accepted l → l.Reckoned) ∧
      runEffort (w.made target handler) ≤
        6 + ((w.handlerFor target handler).1.map handlerEffort).getD 0 := by
  cases made : w.made target handler with
  | refused name refusal => exact ⟨fun _ h => (nomatch h), Nat.zero_le _⟩
  | accepted l =>
    obtain ⟨command, -, created⟩ := made_accepted made
    obtain ⟨reckoned, le⟩ := Launch.create_reckoned created handled
    refine ⟨?_, le⟩
    intro l' same
    cases same
    exact reckoned

theorem launch_reckoned (h : w.Reckoned) (target : Target) (handler : Option Handler)
    (handled : ∀ h, (w.handlerFor target handler).1 = some h → h.selfContained) :
    (w.launch target handler).world.Reckoned ∧
      (w.launch target handler).world.effort ≤
        w.effort + (6 + ((w.handlerFor target handler).1.map handlerEffort).getD 0) := by
  obtain ⟨reckoned, le⟩ := made_reckoned target handler handled
  refine ⟨?_, ?_⟩
  · intro l member
    rw [launch_runs, List.mem_append, List.mem_singleton] at member
    rcases member with member | made
    · exact h l member
    · exact reckoned l made.symm
  · simp only [effort_eq, launch_runs, List.map_append, List.sum_append, List.map_cons, List.map_nil,
      List.sum_cons, List.sum_nil]
    omega

theorem solo_reckoned (launcher : Launcher) (spawn : Spawn) :
    ((solo launcher).launch (soloTarget spawn) (some .records)).world.Reckoned :=
  (launch_reckoned (fun _ h => (List.not_mem_nil h).elim) _ _ (fun _ is => by cases is; rfl)).1

theorem acted_reckoned (h : w.Reckoned) {t : Instant} {i : Nat} {l : Launch}
    (there : w.runs[i]? = some (.accepted l)) (due : l.next = some t) :
    (w.acted t i l).Reckoned ∧
      (w.acted t i l).effort + l.effort =
        w.effort + (l.act t (w.launcher l.launcher).timeout).effort := by
  refine ⟨?_, ?_⟩
  · intro l' member
    rcases List.mem_or_eq_of_mem_set member with old | new
    · exact h l' old
    · cases new
      exact (Launch.act_reckoned (h l (List.mem_of_getElem? there)) due _).1
  · have sum := sum_map_set runEffort there (.accepted (l.act t (w.launcher l.launcher).timeout))
    simp only [effort_eq, Launch.effort, acted] at sum ⊢
    omega

/-- The effort goes down with every action, also where a handler asks for another launch. -/
theorem step_reckoned (h : w.Reckoned) {t : Instant} {i : Nat} (first : w.next = some (t, i)) :
    (w.step t i).Reckoned ∧ (w.step t i).effort < w.effort := by
  obtain ⟨l, there, due⟩ := next_eq_some first
  have reckoned : l.Reckoned := h l (List.mem_of_getElem? there)
  obtain ⟨kept, sum⟩ := acted_reckoned h there due
  rw [step_eq t there]
  split
  · rename_i target handler stage
    have contained := reckoned.handled _ (reckoned.asked target handler stage)
    cases handler with
    | none => cases contained
    | some k =>
      simp only [Handler.selfContained, Bool.and_eq_true] at contained
      have chosen (v : World) : (v.handlerFor target (some k)).1 = some k := by
        simp [handlerFor, Launcher.handlerFor, contained.1]
      have finished : (l.act t (w.launcher l.launcher).timeout).effort = 0 :=
        (reckoned.ended _ (by simp [Launch.act, stage, Launch.goTo]) (l.act_handler t _)).2
      have ahead : l.effort = 1 + (8 + handlerEffort k) := by
        simp [Launch.effort, runEffort, Run.launch?, stage, Stage.remaining, handlerEffort,
          contained.1]
      obtain ⟨more, le⟩ := launch_reckoned kept target (some k)
        (by rw [chosen]; intro _ same; cases same; exact contained.2)
      rw [chosen, Option.map_some, Option.getD_some] at le
      exact ⟨more, by omega⟩
  · have less := (Launch.act_reckoned reckoned due (w.launcher l.launcher).timeout).2
    exact ⟨kept, by omega⟩

theorem settleWithin_isSome (target : Instant) {fuel : Nat} (h : w.Reckoned)
    (enough : w.effort ≤ fuel) : (settleWithin target fuel w).isSome := by
  induction fuel generalizing w with
  | zero =>
    unfold effort at enough
    omega
  | succ fuel ih =>
    unfold settleWithin
    split
    · rename_i t i first
      split
      · obtain ⟨kept, less⟩ := step_reckoned h first
        exact ih kept (by omega)
      · rfl
    · rfl

theorem sleep_isSome (h : w.Reckoned) (ms : Nat) : (w.sleep ms).isSome :=
  settleWithin_isSome _ h (Nat.le_refl _)

end

end World

end JarLaunch
