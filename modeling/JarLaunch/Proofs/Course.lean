import JarLaunch.Proofs.Moves

/-! The course of a launch while its world moves. What a launch is about stays as it was made; what
else holds of it is shown for its own actions and for the signals its child takes, and then holds
along all moves. -/
namespace JarLaunch

namespace Launch

/-- What the actions of a launch leave alone, with the instant of the last one. -/
def frame (l : Launch) : String × List Value × Text × Recipient × Option Handler × Instant :=
  (l.launcher, l.command, l.line, l.recipient, l.handler, l.clock)

section
variable (l : Launch) (t : Instant)

@[simp] theorem awake_launcher : (l.awake t).launcher = l.launcher := rfl
@[simp] theorem awake_command : (l.awake t).command = l.command := rfl
@[simp] theorem awake_line : (l.awake t).line = l.line := rfl
@[simp] theorem awake_recipient : (l.awake t).recipient = l.recipient := rfl
@[simp] theorem awake_handler : (l.awake t).handler = l.handler := rfl
@[simp] theorem awake_child : (l.awake t).child = l.child := rfl
@[simp] theorem awake_stage : (l.awake t).stage = l.stage := rfl
@[simp] theorem awake_clock : (l.awake t).clock = t := rfl
@[simp] theorem awake_trace : (l.awake t).trace = l.trace := rfl
@[simp] theorem awake_calls : (l.awake t).calls = l.calls := rfl
@[simp] theorem awake_sent : (l.awake t).sent = l.sent := rfl

end

theorem deliver_frame (l : Launch) (now : Instant) (c : Completion) :
    (l.deliver now c).frame = l.frame := by
  unfold deliver
  split <;> rfl

theorem expire_eq (l : Launch) (now : Instant) (child : Child) (timeout : Value) :
    l.expire now child timeout =
      { l with
        trace := l.trace ++ [⟨now, stillRunning child timeout⟩]
        child := some ((child.terminate? now).getD child)
        sent := l.sent ++ [⟨now, .terminate, (child.terminate? now).isSome⟩]
        stage :=
          if (child.terminate? now).all (·.exitedBy now) then .draining (now + grace)
          else .terminating (now + grace) } := by
  simp only [expire, send, note]
  cases child.terminate? now with
  | none => rfl
  | some c =>
    simp only [Option.all_some, Option.getD_some, Option.isSome_some]
    split <;> rfl

theorem strike_eq (l : Launch) (now : Instant) (child : Child) :
    l.strike now child =
      { l with
        child := some ((child.kill? now).getD child)
        sent := l.sent ++ [⟨now, .kill, (child.kill? now).isSome⟩]
        stage :=
          if ((child.kill? now).getD child).exitedBy now then .draining (now + grace)
          else .killing } := by
  simp only [strike, send]
  by_cases exited : ((child.kill? now).getD child).exitedBy now <;> simp [exited, goTo]

theorem embark_frame (l : Launch) (now : Instant) (child : Child) (timeout : Value) :
    (l.embark now child timeout).frame = l.frame := by
  unfold embark
  split
  · rfl
  · rfl
  · rw [expire_eq]
    rfl
  · rfl

theorem actWith_frame (l : Launch) (now : Instant) (timeout : Value) (child : Child) :
    (l.actWith now timeout child).frame = l.frame := by
  unfold actWith
  split
  · exact embark_frame _ now child timeout
  · split
    · exact deliver_frame _ _ _
    · rw [expire_eq]
      rfl
  · split
    · rfl
    · rw [strike_eq]
      rfl
  · rfl
  · split <;> exact deliver_frame _ _ _
  · rfl

theorem act_frame (l : Launch) (now : Instant) (timeout : Value) :
    (l.act now timeout).frame =
      (l.launcher, l.command, l.line, l.recipient, l.handler, now) := by
  unfold act
  dsimp only
  split
  · exact deliver_frame _ _ _
  · rfl
  · rfl
  · rfl
  · exact actWith_frame _ _ _ _
  · rfl

theorem act_launcher (l : Launch) (now : Instant) (timeout : Value) :
    (l.act now timeout).launcher = l.launcher := congrArg (·.1) (l.act_frame now timeout)

theorem act_command (l : Launch) (now : Instant) (timeout : Value) :
    (l.act now timeout).command = l.command := congrArg (·.2.1) (l.act_frame now timeout)

theorem act_handler (l : Launch) (now : Instant) (timeout : Value) :
    (l.act now timeout).handler = l.handler :=
  congrArg (·.2.2.2.2.1) (l.act_frame now timeout)

theorem act_recipient (l : Launch) (now : Instant) (timeout : Value) :
    (l.act now timeout).recipient = l.recipient :=
  congrArg (·.2.2.2.1) (l.act_frame now timeout)

theorem act_clock (l : Launch) (now : Instant) (timeout : Value) :
    (l.act now timeout).clock = now := congrArg (·.2.2.2.2.2) (l.act_frame now timeout)

end Launch

open World

inductive Touch (allowed : Step → Prop) (w : World) (i : Nat) (l : Launch) : Launch → Prop where
  | spare : Touch allowed w i l l
  | act {t : Instant} (due : l.next = some t) :
      Touch allowed w i l (l.act t (w.launcher l.launcher).timeout)
  | signal {order : Order} {c c' : Child} (ok : allowed (.signal i order))
      (has : l.child = some c) (taken : c.terminate? w.now = some c' ∨ c.kill? w.now = some c') :
      Touch allowed w i l { l with child := some c' }

section
variable {allowed : Step → Prop} {u v w : World} {i : Nat}

theorem Move.touch (move : Move allowed v w) {l : Launch}
    (there : v.runs[i]? = some (.accepted l)) :
    ∃ l', w.runs[i]? = some (.accepted l') ∧ Touch allowed v i l l' := by
  have bound : i < v.runs.length := (List.getElem?_eq_some_iff.mp there).1
  cases move with
  | @act t j l' first at_j =>
    obtain ⟨_, same, due⟩ := next_eq_some first
    by_cases h : j = i
    · subst j
      cases Option.some.inj (at_j.symm.trans there)
      cases Option.some.inj (same.symm.trans there)
      exact ⟨_, List.getElem?_set_self bound, .act due⟩
    · exact ⟨l, (List.getElem?_set_ne h).trans there, .spare⟩
  | pass _ => exact ⟨l, there, .spare⟩
  | turn => exact ⟨l, there, .spare⟩
  | launch target handler =>
    refine ⟨l, ?_, .spare⟩
    rw [launch_runs, List.getElem?_append_left bound, there]
  | set _ => exact ⟨l, there, .spare⟩
  | setJava _ => exact ⟨l, there, .spare⟩
  | @signal number order ok =>
    rcases signal_eq v number order with same | ⟨l', c, c', at_n, has, taken, changed⟩
    · exact ⟨l, by rw [same, there], .spare⟩
    · rw [changed]
      by_cases h : number = i
      · subst number
        cases Option.some.inj (at_n.symm.trans there)
        exact ⟨_, List.getElem?_set_self bound, .signal ok has taken⟩
      · exact ⟨l, (List.getElem?_set_ne h).trans there, .spare⟩

theorem Move.refused (move : Move allowed v w) {name : String} {refusal : Refusal}
    (there : v.runs[i]? = some (.refused name refusal)) :
    w.runs[i]? = some (.refused name refusal) := by
  have bound : i < v.runs.length := (List.getElem?_eq_some_iff.mp there).1
  cases move with
  | @act t j l first at_j =>
    have h : j ≠ i := by
      rintro rfl
      cases at_j.symm.trans there
    exact (List.getElem?_set_ne h).trans there
  | pass _ => exact there
  | turn => exact there
  | launch target handler => rw [launch_runs, List.getElem?_append_left bound, there]
  | set _ => exact there
  | setJava _ => exact there
  | @signal number order ok =>
    rcases signal_eq v number order with same | ⟨l, c, c', at_n, -, -, changed⟩
    · rw [same, there]
    · have h : number ≠ i := by
        rintro rfl
        cases at_n.symm.trans there
      rw [changed]
      exact (List.getElem?_set_ne h).trans there

theorem Reaches.refused (reached : Reaches allowed u w) {name : String} {refusal : Refusal}
    (there : u.runs[i]? = some (.refused name refusal)) :
    w.runs[i]? = some (.refused name refusal) := by
  induction reached with
  | refl => exact there
  | tail _ move ih => exact move.refused ih

/-- A launch of a world was there before the move, or has just been made and its task is kept. -/
theorem Move.origin (move : Move allowed v w) {l : Launch}
    (there : w.runs[i]? = some (.accepted l)) :
    (∃ l₀, v.runs[i]? = some (.accepted l₀)) ∨
      ∃ target handler, v.made target handler = .accepted l ∧ w.now = v.now ∧ i ∈ w.tasks := by
  cases was : v.runs[i]? with
  | some r =>
    cases r with
    | accepted l₀ => exact .inl ⟨l₀, rfl⟩
    | refused name refusal => cases (move.refused was).symm.trans there
  | none =>
    have outside : v.runs.length ≤ i := List.getElem?_eq_none_iff.mp was
    have inside : i < w.runs.length := (List.getElem?_eq_some_iff.mp there).1
    cases move with
    | act first at_j =>
      rw [World.acted, List.length_set] at inside
      omega
    | pass _ => exact (Nat.not_lt_of_le outside inside).elim
    | turn => exact (Nat.not_lt_of_le outside inside).elim
    | launch target handler =>
      rw [launch_runs] at inside there
      have last : i = v.runs.length := by
        rw [List.length_append, List.length_singleton] at inside
        omega
      subst i
      rw [List.getElem?_concat_length] at there
      have made := Option.some.inj there
      refine .inr ⟨target, handler, made, v.launch_now target handler, ?_⟩
      rw [launch_tasks, enlisted, made]
      exact List.mem_append_right _ (List.mem_singleton_self _)
    | set _ => exact (Nat.not_lt_of_le outside inside).elim
    | setJava _ => exact (Nat.not_lt_of_le outside inside).elim
    | @signal number order _ =>
      rcases signal_eq v number order with same | ⟨l', c, c', -, -, -, changed⟩
      · rw [same] at inside
        omega
      · rw [changed, List.length_set] at inside
        omega

/-- What a move does to the tasks there are: those that are done may be discarded, and are when time
goes on. -/
theorem Move.task (move : Move allowed v w) (old : i < v.runs.length) :
    (i ∈ v.undone → i ∈ w.tasks) ∧
      (i ∈ w.tasks → i ∈ v.undone ∨ i ∈ v.tasks ∧ w.now = v.now) := by
  have kept : i ∈ v.undone → i ∈ v.tasks := fun undone => ((v.mem_undone i).mp undone).1
  cases move with
  | @act t j l first at_j =>
    by_cases later : v.now < t
    · have tasks : (v.acted t j l).tasks = v.undone := if_pos later
      rw [tasks]
      exact ⟨id, .inl⟩
    · have tasks : (v.acted t j l).tasks = v.tasks := if_neg later
      have now : (v.acted t j l).now = v.now := Nat.max_eq_left (Nat.le_of_not_lt later)
      rw [tasks]
      exact ⟨kept, fun member => .inr ⟨member, now⟩⟩
  | pass _ => exact ⟨id, .inl⟩
  | turn => exact ⟨id, .inl⟩
  | launch target handler =>
    have now := v.launch_now target handler
    rw [launch_tasks, enlisted]
    split
    · exact ⟨kept, fun member => .inr ⟨member, now⟩⟩
    · refine ⟨fun undone => List.mem_append_left _ (kept undone), fun member => ?_⟩
      rcases List.mem_append.mp member with member | new
      · exact .inr ⟨member, now⟩
      · exact ((Nat.ne_of_lt old) (List.mem_singleton.mp new)).elim
  | set _ => exact ⟨kept, fun member => .inr ⟨member, rfl⟩⟩
  | setJava _ => exact ⟨kept, fun member => .inr ⟨member, rfl⟩⟩
  | @signal number order _ =>
    rcases signal_eq v number order with same | ⟨_, _, _, -, -, -, changed⟩
    · rw [same]
      exact ⟨kept, fun member => .inr ⟨member, rfl⟩⟩
    · rw [changed]
      exact ⟨kept, fun member => .inr ⟨member, rfl⟩⟩

def World.InForce (kind : String → Value → Prop) (w : World) : Prop :=
  ∀ name, kind name (w.launcher name).timeout

theorem World.solo_inForce {kind : String → Value → Prop} {launcher : Launcher}
    (main : kind "main" launcher.timeout) (others : ∀ name, kind name ({} : Launcher).timeout) :
    (solo launcher).InForce kind := by
  intro name
  by_cases is : name = "main"
  · subst name
    exact main
  · have other : (name == "main") = false := by simpa using is
    simpa [World.launcher, solo, create, List.lookup_cons, other] using others name

def SetsOnly (allowed : Step → Prop) (kind : String → Value → Prop) : Prop :=
  ∀ name change v, allowed (.set name change) → change.timeout = some v → kind name v

variable {kind : String → Value → Prop}

theorem Move.inForce (move : Move allowed v w) (sets : SetsOnly allowed kind)
    (now : v.InForce kind) : w.InForce kind := by
  intro name
  cases move with
  | act _ _ => exact now name
  | pass _ => exact now name
  | turn => exact now name
  | launch target handler =>
    rw [launch_launcher]
    exact now name
  | @set key change ok =>
    rw [launcher_configure]
    by_cases h : name = key
    · subst name
      rw [if_pos rfl]
      cases given : change.timeout with
      | none => simpa [Change.apply, given] using now key
      | some v' => simpa [Change.apply, given] using sets key change v' ok given
    · rw [if_neg h]
      exact now name
  | setJava _ => exact now name
  | @signal number order _ =>
    rcases signal_eq v number order with same | ⟨l, c, c', -, -, -, changed⟩
    · rw [same]
      exact now name
    · rw [changed]
      exact now name

theorem Reaches.inForce (reached : Reaches allowed u w) (sets : SetsOnly allowed kind)
    (now : u.InForce kind) : w.InForce kind := by
  induction reached with
  | refl => exact now
  | tail _ move ih => exact move.inForce sets ih

/-- What holds of a launch now, and is kept by its actions under the timeouts in force and by the
signals that its child may take, holds wherever the world may go. -/
theorem Reaches.keeps {P : Launch → Prop} (reached : Reaches allowed u w)
    (sets : SetsOnly allowed kind) (inForce : u.InForce kind) {l : Launch}
    (there : u.runs[i]? = some (.accepted l)) (start : P l)
    (act : ∀ l t timeout, P l → l.next = some t → kind l.launcher timeout → P (l.act t timeout))
    (signal : ∀ l order c', allowed (.signal i order) → P l → P { l with child := some c' }) :
    ∃ l', w.runs[i]? = some (.accepted l') ∧ P l' := by
  induction reached with
  | refl => exact ⟨l, there, start⟩
  | tail reached move ih =>
    obtain ⟨l₁, there₁, h₁⟩ := ih
    obtain ⟨l₂, there₂, touch⟩ := move.touch there₁
    refine ⟨l₂, there₂, ?_⟩
    cases touch with
    | spare => exact h₁
    | act due => exact act l₁ _ _ h₁ due (Reaches.inForce reached sets inForce _)
    | signal ok _ _ => exact signal l₁ _ _ ok h₁

theorem Reaches.keeps_always {P : Launch → Prop} (reached : Reaches allowed u w) {l : Launch}
    (there : u.runs[i]? = some (.accepted l)) (start : P l)
    (act : ∀ l t timeout, P l → l.next = some t → P (l.act t timeout))
    (signal : ∀ l c', P l → P { l with child := some c' }) :
    ∃ l', w.runs[i]? = some (.accepted l') ∧ P l' := by
  have sets : SetsOnly allowed fun _ _ => True := fun _ _ _ _ _ => trivial
  exact reached.keeps sets (fun _ => trivial) there start
    (fun l t timeout h due _ => act l t timeout h due) (fun l _ c' _ h => signal l c' h)

end

/-- A step that leaves a launch alone: no signal for its child, and its launcher's timeout stays. -/
def Step.Spares (number : Nat) (launcher : String) (timeout : Value) : Step → Prop
  | .signal i _ => i ≠ number
  | .set name change => name = launcher → ∀ v, change.timeout = some v → v = timeout
  | _ => True

theorem Reaches.keeps_spared {P : Launch → Prop} {u w : World} {i : Nat} {launcher : String}
    {timeout : Value} (reached : Reaches (Step.Spares i launcher timeout) u w)
    (inForce : (u.launcher launcher).timeout = timeout) {l : Launch}
    (there : u.runs[i]? = some (.accepted l)) (owner : l.launcher = launcher) (start : P l)
    (act : ∀ l t, P l → l.next = some t → P (l.act t timeout)) :
    ∃ l', w.runs[i]? = some (.accepted l') ∧ l'.launcher = launcher ∧ P l' := by
  have sets : SetsOnly (Step.Spares i launcher timeout) fun name v =>
      name = launcher → v = timeout := fun _ _ v ok given same => ok same v given
  refine reached.keeps (P := fun l' => l'.launcher = launcher ∧ P l') sets
    (fun _ same => same ▸ inForce) there ⟨owner, start⟩ ?_ ?_
  · intro l₁ t v h due kept
    cases kept h.1
    exact ⟨(l₁.act_launcher t timeout).trans h.1, act l₁ t h.2 due⟩
  · exact fun _ _ _ ok _ => (ok rfl).elim

end JarLaunch
