import JarLaunch.Proofs.Likeness

/-! Waiting worlds. To each launch a wait is a wait of its own: it acts when it is due, under the
timeout of its launcher, and the actions of others do not come into it. Where no handler makes
launches and every launch comes to its end, a drain returns. -/
namespace JarLaunch

def Handler.isQuiet : Handler → Bool
  | .launches _ _ => false
  | _ => true

theorem Handler.selfContained_of_isQuiet {h : Handler} (quiet : h.isQuiet) : h.selfContained := by
  cases h <;> first | rfl | cases quiet

namespace World

section
variable {u w : World} {t : Instant} {j : Nat}

theorem step_launcher (w : World) (t : Instant) (j : Nat) (name : String) :
    (w.step t j).launcher name = w.launcher name := by
  unfold step
  split
  · dsimp only
    split
    · rw [launch_launcher]
      rfl
    · rfl
  · rfl

theorem step_run (first : w.next = some (t, j)) {i : Nat} {l : Launch}
    (there : w.runs[i]? = some (.accepted l)) :
    (w.step t j).runs[i]? = some (.accepted l) ∨
      l.next = some t ∧
        (w.step t j).runs[i]? = some (.accepted (l.act t (w.launcher l.launcher).timeout)) := by
  have bound : i < w.runs.length := (List.getElem?_eq_some_iff.mp there).1
  obtain ⟨l', there', due⟩ := next_eq_some first
  have further : (w.step t j).runs[i]? = (w.acted t j l').runs[i]? := by
    rw [step_eq t there']
    split
    · rw [launch_runs, List.getElem?_append_left]
      simpa [acted] using bound
    · rfl
  rw [further]
  by_cases same : j = i
  · subst j
    cases Option.some.inj (there'.symm.trans there)
    exact .inr ⟨due, List.getElem?_set_self bound⟩
  · exact .inl ((List.getElem?_set_ne same).trans there)

theorem settleWithin_settles {target : Instant} {fuel : Nat}
    (settled : settleWithin target fuel u = some w) {i : Nat} {l : Launch}
    (there : u.runs[i]? = some (.accepted l)) :
    ∃ l', w.runs[i]? = some (.accepted l') ∧
      l.Settles (u.launcher l.launcher).timeout (· ≤ target) l' := by
  induction fuel generalizing u l with
  | zero => cases settled
  | succ fuel ih =>
    unfold settleWithin at settled
    split at settled
    · rename_i t j first
      split at settled
      · rename_i inside
        rcases step_run first there with spared | ⟨due, acted⟩
        · obtain ⟨l', there', rest⟩ := ih settled spared
          rw [step_launcher] at rest
          exact ⟨l', there', rest⟩
        · obtain ⟨l', there', rest⟩ := ih settled acted
          rw [step_launcher, Launch.act_launcher] at rest
          exact ⟨l', there', .act due inside rest⟩
      · rename_i outside
        cases Option.some.inj settled
        refine ⟨l, there, .idle fun u due inside => ?_⟩
        exact outside (Nat.le_trans (next_le first there due) inside)
    · rename_i nothing
      cases Option.some.inj settled
      refine ⟨l, there, .idle fun u due => ?_⟩
      cases (next_eq_none nothing there).symm.trans due

theorem sleep_settles {ms : Nat} (slept : u.sleep ms = some w) {i : Nat} {l : Launch}
    (there : u.runs[i]? = some (.accepted l)) :
    ∃ l', w.runs[i]? = some (.accepted l') ∧
      l.Settles (u.launcher l.launcher).timeout (· ≤ u.now + Clock.millis ms) l' :=
  settleWithin_settles slept there

theorem settleWithin_keeps {P : World → Prop}
    (step : ∀ w t i, P w → w.next = some (t, i) → P (w.step t i))
    (pass : ∀ w t, P w → P { w with now := t, tasks := w.undone }) {target : Instant} {fuel : Nat}
    (settled : settleWithin target fuel u = some w) (h : P u) : P w := by
  induction fuel generalizing u with
  | zero => cases settled
  | succ fuel ih =>
    unfold settleWithin at settled
    split at settled
    · rename_i t i first
      split at settled
      · exact ih settled (step u t i h first)
      · exact Option.some.inj settled ▸ pass u _ h
    · exact Option.some.inj settled ▸ pass u _ h

end

structure Quiet (w : World) : Prop where
  reckoned : w.Reckoned
  handlers : ∀ l, .accepted l ∈ w.runs → ∀ h, l.handler = some h → h.isQuiet

section
variable {w : World} {t : Instant} {i : Nat}

theorem Quiet.step_eq (quiet : w.Quiet) (first : w.next = some (t, i)) :
    ∃ l, w.runs[i]? = some (.accepted l) ∧ w.step t i = w.acted t i l := by
  obtain ⟨l, there, -⟩ := next_eq_some first
  have member := List.mem_of_getElem? there
  refine ⟨l, there, ?_⟩
  rw [World.step_eq t there]
  split
  · rename_i stage
    cases quiet.handlers l member _ ((quiet.reckoned l member).asked _ _ stage)
  · rfl

theorem Quiet.step (quiet : w.Quiet) (first : w.next = some (t, i)) : (w.step t i).Quiet := by
  refine ⟨(step_reckoned quiet.reckoned first).1, ?_⟩
  obtain ⟨l, there, acts⟩ := quiet.step_eq first
  rw [acts]
  intro l' member
  rcases List.mem_or_eq_of_mem_set member with old | new
  · exact quiet.handlers l' old
  · cases new
    rw [Launch.act_handler]
    exact quiet.handlers l (List.mem_of_getElem? there)

end

end World

theorem Reaches.ended {allowed : Step → Prop} {u w : World} (reached : Reaches allowed u w)
    {i : Nat} {l : Launch} (there : u.runs[i]? = some (.accepted l)) (ended : l.stage = .ended) :
    ∃ l', w.runs[i]? = some (.accepted l') ∧ l'.stage = .ended := by
  refine reached.keeps_always (P := fun l' => l'.stage = .ended) there ended ?_ fun _ _ h => h
  intro l' t timeout halted due
  simp [Launch.next, Launch.awaited, halted] at due

theorem Reaches.settles {u w : World} {i : Nat} {launcher : String} {timeout : Value}
    (reached : Reaches (Step.Spares i launcher timeout) u w)
    (inForce : (u.launcher launcher).timeout = timeout) {l : Launch}
    (there : u.runs[i]? = some (.accepted l)) (owner : l.launcher = launcher) :
    ∃ l', w.runs[i]? = some (.accepted l') ∧ l'.launcher = launcher ∧
      ∀ e, l'.Settles timeout (fun _ => True) e → l.Settles timeout (fun _ => True) e :=
  reached.keeps_spared inForce there owner (fun _ settles => settles)
    fun _ _ before due e rest => before e (.act due trivial rest)

namespace World

/-- The tasks of all launches that have not ended are kept. -/
def Tracked (w : World) : Prop :=
  ∀ i l, w.runs[i]? = some (.accepted l) → l.stage ≠ .ended → i ∈ w.tasks

theorem tracked_of_new {w : World} (new : w.runs = []) : w.Tracked := by
  intro i l there
  rw [new] at there
  cases there

theorem Tracked.mem_undone {w : World} (tracked : w.Tracked) {i : Nat} {l : Launch}
    (there : w.runs[i]? = some (.accepted l)) (going : l.stage ≠ .ended) : i ∈ w.undone :=
  (w.mem_undone i).mpr ⟨tracked i l there going, (w.isDone_eq_false i).mpr ⟨l, there, going⟩⟩

theorem Tracked.move {allowed : Step → Prop} {v w : World} (tracked : v.Tracked)
    (move : Move allowed v w) : w.Tracked := by
  intro i l there going
  rcases move.origin there with ⟨l₀, was⟩ | ⟨_, _, -, -, kept⟩
  · obtain ⟨_, there', touch⟩ := move.touch was
    cases Option.some.inj (there.symm.trans there')
    have open_ : l₀.stage ≠ .ended := by
      cases touch with
      | spare => exact going
      | act due =>
        intro halted
        simp [Launch.next, Launch.awaited, halted] at due
      | signal _ _ _ => exact going
    exact (move.task (List.getElem?_eq_some_iff.mp was).1).1 (tracked.mem_undone was open_)
  · exact kept

theorem Tracked.reaches {allowed : Step → Prop} {u w : World} (tracked : u.Tracked)
    (reached : Reaches allowed u w) : w.Tracked := by
  induction reached with
  | refl => exact tracked
  | tail _ move ih => exact ih.move move

theorem ended_of_pending_eq_zero {w : World} {launcher : String} (tracked : w.Tracked)
    (none : w.pending launcher = 0) {i : Nat} {l : Launch}
    (there : w.runs[i]? = some (.accepted l)) (owner : l.launcher = launcher) :
    l.stage = .ended := by
  by_contra going
  have kept : i ∈ w.outstanding launcher :=
    (w.mem_outstanding launcher i).mpr ⟨l, there, owner, tracked i l there going⟩
  exact pending_ne_zero.mpr ⟨i, kept⟩ none

/-- A launch whose launcher is drained has gone its way to the end. -/
theorem drains_settle {u w : World} {drains : List String} {launcher : String}
    (among : launcher ∈ drains) (drained : u.through (drains.map .drain) = some w)
    (tracked : u.Tracked) {i : Nat} {l : Launch} (there : u.runs[i]? = some (.accepted l))
    (owner : l.launcher = launcher) :
    ∃ e, w.runs[i]? = some (.accepted e) ∧ e.stage = .ended ∧
      l.Settles (u.launcher launcher).timeout (fun _ => True) e := by
  obtain ⟨first, last, rfl⟩ := List.append_of_mem among
  have drainsOnly (drains : List String) : ∀ s ∈ drains.map Step.drain,
      s.Spares i launcher (u.launcher launcher).timeout := by
    intro s hs
    obtain ⟨_, -, rfl⟩ := List.mem_map.mp hs
    trivial
  rw [List.map_append, List.map_cons, through_append] at drained
  obtain ⟨u₁, begun, rest⟩ := Option.bind_eq_some_iff.mp drained
  obtain ⟨⟨u₂, _⟩, performed, rest⟩ := Option.bind_eq_some_iff.mp rest
  obtain ⟨_, waited, h⟩ := Option.map_eq_some_iff.mp performed
  cases h
  obtain ⟨v, before, none, after, -⟩ := drain_reaches waited
  have upTo := (through_reaches (drainsOnly first) begun).trans before
  have onward := after.trans (through_reaches (drainsOnly last) rest)
  obtain ⟨l₁, there₁, owner₁, -⟩ := upTo.settles rfl there owner
  obtain ⟨e, there₂, halted⟩ := onward.ended there₁ 
    (ended_of_pending_eq_zero (tracked.reaches upTo) none there₁ owner₁)
  obtain ⟨_, there₃, -, settles⟩ := (upTo.trans onward).settles rfl there owner
  cases Option.some.inj (there₂.symm.trans there₃)
  have idle : ∀ t, e.next = some t → ¬ True := by simp [Launch.next, Launch.awaited, halted]
  exact ⟨e, there₂, halted, settles e (.idle idle)⟩

def Finishing (w : World) : Prop :=
  ∀ l, .accepted l ∈ w.runs →
    ∃ e, l.Settles (w.launcher l.launcher).timeout (fun _ => True) e ∧ e.stage = .ended

section
variable {w : World}

theorem Finishing.step (finishing : w.Finishing) (quiet : w.Quiet) {t : Instant} {i : Nat}
    (first : w.next = some (t, i)) : (w.step t i).Finishing := by
  obtain ⟨l, there, due⟩ := next_eq_some first
  obtain ⟨_, there', acts⟩ := quiet.step_eq first
  cases Option.some.inj (there'.symm.trans there)
  rw [acts]
  intro l' member
  rcases List.mem_or_eq_of_mem_set member with old | new
  · exact finishing l' old
  · cases new
    rw [acted_launcher, Launch.act_launcher]
    obtain ⟨e, settles, halted⟩ := finishing l (List.mem_of_getElem? there)
    cases settles with
    | idle outside => exact (outside t due trivial).elim
    | act due' _ rest =>
      cases Option.some.inj (due.symm.trans due')
      exact ⟨e, rest, halted⟩

theorem Finishing.next_isSome (finishing : w.Finishing) {i : Nat} (going : w.isDone i = false) :
    w.next.isSome := by
  obtain ⟨l, there, open_⟩ := (w.isDone_eq_false i).mp going
  obtain ⟨e, settles, halted⟩ := finishing l (List.mem_of_getElem? there)
  cases settles with
  | idle _ => exact (open_ halted).elim
  | act due _ _ =>
    cases first : w.next with
    | none => cases (next_eq_none first there).symm.trans due
    | some _ => rfl

theorem gatherWithin_returns (numbers : List Nat) {fuel : Nat} (quiet : w.Quiet)
    (finishing : w.Finishing) (enough : w.effort ≤ fuel) :
    ∃ v, gatherWithin numbers fuel w = some v ∧ v.Quiet ∧ v.Finishing ∧
      (v.effort < w.effort ∨ ∀ i ∈ numbers, w.isDone i) := by
  induction fuel generalizing w with
  | zero =>
    unfold effort at enough
    omega
  | succ fuel ih =>
    unfold gatherWithin
    split
    · rename_i done
      exact ⟨w, rfl, quiet, finishing, .inr (List.all_eq_true.mp done)⟩
    · rename_i undone
      obtain ⟨i, -, going⟩ : ∃ i ∈ numbers, w.isDone i = false := by simpa using undone
      obtain ⟨⟨t, j⟩, first⟩ := Option.isSome_iff_exists.mp (finishing.next_isSome going)
      have less := (step_reckoned quiet.reckoned first).2
      simp only [first]
      obtain ⟨v, gathered, quiet', finishing', rest⟩ :=
        ih (quiet.step first) (finishing.step quiet first) (by omega)
      refine ⟨v, gathered, quiet', finishing', .inl ?_⟩
      rcases rest with lower | done
      · omega
      · -- nothing was left to wait for, so the wait ended where it stood
        cases fuel with
        | zero => cases gathered
        | succ fuel =>
          unfold gatherWithin at gathered
          rw [if_pos (List.all_eq_true.mpr done)] at gathered
          cases Option.some.inj gathered
          exact less

def Swept (w : World) : Prop := ∀ i ∈ w.tasks, w.isDone i = false

theorem undone_swept (w : World) : Swept { w with tasks := w.undone } :=
  fun i kept => ((w.mem_undone i).mp kept).2

theorem settleWithin_swept {u : World} {target : Instant} {fuel : Nat}
    (settled : settleWithin target fuel u = some w) : w.Swept := by
  induction fuel generalizing u with
  | zero => cases settled
  | succ fuel ih =>
    unfold settleWithin at settled
    split at settled
    · split at settled
      · exact ih settled
      · exact Option.some.inj settled ▸ u.undone_swept
    · exact Option.some.inj settled ▸ u.undone_swept

/-- Nothing is left to be carried out at the present instant. -/
structure Idle (w : World) : Prop where
  settled : w.Settled
  swept : w.Swept

theorem sleep_idle {u : World} {ms : Nat} (slept : u.sleep ms = some w) : w.Idle :=
  ⟨(@sleep_reaches (fun _ => True) u w ms slept).2.2, settleWithin_swept slept⟩

theorem drain_idle {u : World} {launcher : String} (drained : u.drain launcher = some w) :
    w.Idle := by
  obtain ⟨m, -, settled⟩ := Option.bind_eq_some_iff.mp drained
  obtain ⟨-, now, later⟩ : Reaches (fun _ => True) m w ∧ _ := settleWithin_reaches settled
  refine ⟨fun t i first => ?_, settleWithin_swept settled⟩
  rw [now, Nat.max_self]
  exact later t i first

/-- A turn of the loop uses up effort or leaves no task that is done. -/
theorem told_settling (quiet : w.Quiet) (finishing : w.Finishing) :
    w.told.Quiet ∧ w.told.Finishing ∧
      (w.told.effort < w.effort ∨ w.told.Swept ∧ w.told.effort = w.effort) := by
  refine told_keeps (P := fun v => v.Quiet ∧ v.Finishing ∧
      (v.effort < w.effort ∨ v.Swept ∧ v.effort = w.effort)) (fun v t i h first _ => ?_)
    ⟨⟨quiet.reckoned, quiet.handlers⟩, finishing, .inr ⟨w.undone_swept, rfl⟩⟩
  have less := (step_reckoned h.1.reckoned first).2
  exact ⟨h.1.step first, h.2.1.step h.1 first, .inl (by omega)⟩

theorem gatherWithin_done {numbers : List Nat} (done : numbers.all w.isDone) :
    gatherWithin numbers w.effort w = some w := by
  rw [effort, Nat.add_comm, gatherWithin, if_pos done]

/-- A drain returns within as many rounds as there are actions ahead, and one more where a task is
kept that is done: the round that finds only such tasks uses up nothing, but leaves none of them. -/
theorem drainWithin_returns (launcher : String) {rounds : Nat} (quiet : w.Quiet)
    (finishing : w.Finishing) (enough : w.effort < rounds ∨ w.Swept ∧ w.effort ≤ rounds) :
    ∃ v, drainWithin launcher rounds w = some v ∧ v.Quiet ∧ v.Finishing := by
  induction rounds generalizing w with
  | zero =>
    unfold effort at enough
    omega
  | succ rounds ih =>
    unfold drainWithin
    split
    · exact ⟨w, rfl, quiet, finishing⟩
    · rename_i pending
      obtain ⟨i, listed⟩ := pending_ne_zero.mp pending
      obtain ⟨v, gathered, quiet₁, finishing₁, upTo⟩ :
          ∃ v, gatherWithin (w.outstanding launcher) w.effort w = some v ∧ v.Quiet ∧
            v.Finishing ∧ v.effort ≤ rounds := by
        by_cases done : (w.outstanding launcher).all w.isDone
        · obtain ⟨-, -, -, member⟩ := (w.mem_outstanding launcher i).mp listed
          have kept : ¬ w.Swept := fun swept =>
            Bool.false_ne_true ((swept i member).symm.trans (List.all_eq_true.mp done i listed))
          exact ⟨w, gatherWithin_done done, quiet, finishing,
            enough.elim Nat.le_of_lt_succ fun swept => (kept swept.1).elim⟩
        · obtain ⟨v, gathered, quiet₁, finishing₁, less⟩ :=
            gatherWithin_returns (w.outstanding launcher) quiet finishing (Nat.le_refl _)
          have lower := less.resolve_right fun all => done (List.all_eq_true.mpr all)
          exact ⟨v, gathered, quiet₁, finishing₁, by omega⟩
      obtain ⟨quiet₂, finishing₂, first⟩ := told_settling quiet₁ finishing₁
      obtain ⟨quiet₃, finishing₃, second⟩ := told_settling quiet₂ finishing₂
      rw [gathered, Option.bind_some]
      apply ih quiet₃ finishing₃
      rcases second with less | ⟨swept, same⟩
      · exact .inl (by omega)
      · exact .inr ⟨swept, by omega⟩

theorem drain_returns (launcher : String) (quiet : w.Quiet) (finishing : w.Finishing) :
    ∃ v, w.drain launcher = some v ∧ v.Quiet ∧ v.Finishing := by
  obtain ⟨u, returned, quiet', finishing'⟩ :=
    drainWithin_returns launcher quiet finishing (.inl (Nat.lt_succ_self _))
  obtain ⟨v, settled⟩ := Option.isSome_iff_exists.mp
    (settleWithin_isSome u.now quiet'.reckoned (Nat.le_refl _))
  have kept := settleWithin_keeps (P := fun v => v.Quiet ∧ v.Finishing)
    (fun v t i h first => ⟨h.1.step first, h.2.step h.1 first⟩)
    (fun v t h => ⟨⟨h.1.reckoned, h.1.handlers⟩, h.2⟩) settled ⟨quiet', finishing'⟩
  exact ⟨v, by simp only [drain, drained, returned, Option.bind_some, settle, settled], kept⟩

theorem drains_return (drains : List String) (quiet : w.Quiet) (finishing : w.Finishing) :
    ∃ v, w.through (drains.map .drain) = some v := by
  induction drains generalizing w with
  | nil => exact ⟨w, rfl⟩
  | cons d drains ih =>
    obtain ⟨u, drained, quiet', finishing'⟩ := drain_returns d quiet finishing
    obtain ⟨v, rest⟩ := ih quiet' finishing'
    refine ⟨v, ?_⟩
    simp only [List.map_cons, through, perform, drained, Option.map_some, Option.bind_some, rest]

end

end World

end JarLaunch
