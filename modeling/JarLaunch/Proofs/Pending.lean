import JarLaunch.Proofs.Settling
import JarLaunch.Proofs.Timeline

/-! Accounts of pending launches. A launch is pending until the action that ends it, and its handler
is done when the time that it takes is over. The two agree whenever nothing is left to do at the
present instant. A drain waits in rounds for what is outstanding; it returns when the last handler
is done, whatever was launched in the meantime. -/
namespace JarLaunch

/-- How long a handler is busy after its call, in milliseconds. -/
def Handler.duration : Option Handler → Nat
  | some (.lingers delay) | some (.dozes delay) | some (.dozesThenFails delay) => delay
  | _ => 0

namespace Launch

def doneAt (l : Launch) (call : Instant × Completion) : Instant :=
  call.1 + Clock.millis (Handler.duration l.handler)

def doneBy (l : Launch) (now : Instant) : Bool := l.calls.any fun call => l.doneAt call ≤ now

/-- What a launch owes its handler: a call, the time it takes for one, or nothing more. -/
inductive Owes (l : Launch) : Prop where
  | call (isOpen : l.stage.isOpen) (calls : l.calls = [])
  | time {call : Instant × Completion} (going : l.stage ≠ .ended)
      (closed : l.stage.isOpen = false) (calls : l.calls = [call])
      (due : l.next = some (l.doneAt call))
  | nothing {call : Instant × Completion} (ended : l.stage = .ended) (calls : l.calls = [call])
      (clock : l.clock = l.doneAt call)

section
variable {l l' : Launch} {t : Instant}

theorem deliver_owes (calls : l.calls = []) (clock : l.clock = t) (c : Completion) :
    (l.deliver t c).Owes := by
  obtain ⟨once, closed⟩ := l.deliver_calls t c
  rw [calls, List.nil_append] at once
  have atOnce : t + Clock.millis 0 = t := by simp [Clock.millis]
  cases handled : l.handler with
  | none =>
    refine .nothing (by simp [deliver, handled, goTo]) once ?_
    simp [deliver, handled, goTo, note, doneAt, Handler.duration, atOnce, clock]
  | some h =>
    cases h with
    | lingers delay | dozes delay | dozesThenFails delay =>
      refine .time (by simp [deliver, handled, goTo]) closed once ?_
      simp [deliver, handled, goTo, note, next, awaited, clock, doneAt, Handler.duration]
    | launches target handler =>
      refine .time (by simp [deliver, handled, goTo]) closed once ?_
      simp [deliver, handled, goTo, note, next, awaited, clock, atOnce, doneAt, Handler.duration]
    | records | fails | cancels | returns | hollow | misfits | prints =>
      refine .nothing (by simp [deliver, handled, goTo]) once ?_
      simp [deliver, handled, goTo, note, noteAll, doneAt, Handler.duration, atOnce, clock]

theorem Owes.conclude (calls : l.calls = []) (clock : l.clock = t) (child : Child)
    (failure : Option Failure) : (l.conclude t child failure).Owes :=
  deliver_owes (l := l.note t _) calls clock _

theorem Owes.finish {call : Instant × Completion} (calls : l.calls = [call])
    (due : l.next = some (l.doneAt call)) (now : l.next = some t) (same : l'.calls = l.calls)
    (handler : l'.handler = l.handler) (clock : l'.clock = t) (ended : l'.stage = .ended) :
    l'.Owes := by
  cases Option.some.inj (due.symm.trans now)
  refine .nothing ended (same.trans calls) ?_
  rw [clock, doneAt, doneAt, handler]

theorem Owes.act (h : l.Owes) {timeout : Value} (usable : Limit.ofSetting timeout ≠ .unusable)
    (current : l.Current) (now : l.next = some t) : (l.act t timeout).Owes := by
  cases h with
  | call isOpen calls =>
    have action : l.Action t timeout (l.act t timeout) := act_action current now
    generalize l.act t timeout = l' at action ⊢
    cases action with
    | @tell _ r stage => exact deliver_owes (l := l.having t r) calls rfl _
    | watch stage has limit => exact .call rfl calls
    | die stage has limit => exact (usable limit).elim
    | expire has reason => exact .call expire_open.1 (expire_open.2.trans calls)
    | @complete _ r _ stage has finished => exact .conclude (l := l.having t r) calls rfl _ _
    | stop stage has finished => exact .call rfl calls
    | strike stage has late unfinished => exact .call strike_open.1 (strike_open.2.trans calls)
    | outlive stage has finished => exact .call rfl calls
    | @giveUp _ r _ stage has finished => exact .conclude (l := l.having t r) calls rfl _ _
    | @giveUpOpen child r _ stage has unfinished =>
      exact .conclude (l := (l.having t r).stopReading.note t (pipesOpen child)) calls rfl _ _
    | wake stage => simp [stage, Stage.isOpen] at isOpen
    | leave stage =>
      rcases stage with ⟨_, stage⟩ | ⟨_, _, stage⟩ <;> simp [stage, Stage.isOpen] at isOpen
    | strand isOpen' started has => exact .call isOpen calls
  | time going closed calls due =>
    obtain ⟨-, same⟩ := act_closed closed t timeout
    refine .finish calls due now same (l.act_handler t timeout) (l.act_clock t timeout) ?_
    cases stage : l.stage with
    | dozing _ _ _ | lingering _ | asking _ _ => simp [Launch.act, stage, goTo]
    | ended => exact (going stage).elim
    | unstarted _ | fresh | watching _ | terminating _ | killing | draining _ =>
      simp [stage, Stage.isOpen] at closed
  | nothing ended calls clock => simp [next, awaited, ended] at now

theorem next_of_closed (closed : l.stage.isOpen = false) (c : Child) :
    ({ l with child := some c } : Launch).next = l.next := by
  cases stage : l.stage with
  | dozing _ _ _ | lingering _ | asking _ _ | ended => simp [next, awaited, stage]
  | unstarted _ | fresh | watching _ | terminating _ | killing | draining _ =>
    simp [stage, Stage.isOpen] at closed

theorem Owes.passes (h : l.Owes) {now : Instant} {signals : Prop}
    (passes : l.Passes (fun _ v => v.Waitable) signals now t l') : l'.Owes := by
  cases passes with
  | wait _ _ => exact h
  | act due _ waitable current => exact h.act waitable.usable current due
  | signal has takes _ =>
    cases h with
    | call isOpen calls => exact .call isOpen calls
    | time going closed calls due =>
      exact .time going closed calls ((next_of_closed closed _).trans due)
    | nothing ended calls clock => exact .nothing ended calls clock

theorem create_owes {launcher : String} {handler : Option Handler × Recipient} {pid : Nat}
    {command : List Value} {spawn : Spawn}
    (created : create launcher handler t pid command spawn = .ok l) : l.Owes := by
  cases create_created created with
  | unstarted _ _ => exact .call rfl rfl
  | started _ _ => exact .call rfl rfl

theorem Owes.of_ended (h : l.Owes) (ended : l.stage = .ended) :
    ∃ call, l.calls = [call] ∧ l.clock = l.doneAt call := by
  cases h with
  | call isOpen _ => simp [ended, Stage.isOpen] at isOpen
  | time going _ _ _ => exact (going ended).elim
  | nothing _ calls clock => exact ⟨_, calls, clock⟩

end

end Launch

namespace World

/-- How many launches of a launcher have a handler that is not done. -/
def unreturned (w : World) (launcher : String) : Nat :=
  w.runs.countP fun r => r.launch?.any fun l => l.launcher = launcher && !l.doneBy w.now

/-- How many launches of a launcher are done but have their tasks kept, until the loop turns. -/
def lapsed (w : World) (launcher : String) : Nat := (w.outstanding launcher).countP w.isDone

def Tidy (w : World) : Prop :=
  ∀ i l, w.runs[i]? = some (.accepted l) → i ∈ w.tasks → l.stage = .ended → l.clock = w.now

theorem Tidy.move {allowed : Step → Prop} {v w : World} (tidy : v.Tidy) (clocked : v.Clocked)
    (move : Move allowed v w) : w.Tidy := by
  intro i l there kept ended
  rcases move.origin there with ⟨l₀, was⟩ | ⟨target, handler, made, -, -⟩
  · -- a launch that has ended before keeps its task only while no time passes
    have before (halted : l₀.stage = .ended) : l₀.clock = w.now := by
      rcases (move.task (List.getElem?_eq_some_iff.mp was).1).2 kept with undone | ⟨member, now⟩
      · obtain ⟨-, going⟩ := (v.mem_undone i).mp undone
        obtain ⟨_, was', open_⟩ := (v.isDone_eq_false i).mp going
        cases Option.some.inj (was.symm.trans was')
        exact (open_ halted).elim
      · exact (tidy i l₀ was member halted).trans now.symm
    have free : v.InForce fun _ _ => True := fun _ => trivial
    obtain ⟨l', there', passes⟩ := move.passes free was (clocked i l₀ was)
    cases Option.some.inj (there.symm.trans there')
    generalize w.now = t at before passes ⊢
    cases passes with
    | wait _ _ => exact before ended
    | @act _ timeout _ _ _ _ => exact l₀.act_clock t timeout
    | signal _ _ _ => exact before ended
  · obtain ⟨_, -, created⟩ := made_accepted made
    cases Launch.create_created created <;> cases ended

theorem Tidy.reaches {allowed : Step → Prop} {u w : World} (tidy : u.Tidy) (clocked : u.Clocked)
    (reached : Reaches allowed u w) : w.Tidy := by
  induction reached with
  | refl => exact tidy
  | tail before move ih => exact ih.move (Reaches.clocked before clocked) move

structure Orderly (w : World) : Prop where
  clocked : w.Clocked
  timely : w.InForce fun _ v => v.Waitable
  owes : ∀ (i : Nat) (l : Launch), w.runs[i]? = some (.accepted l) → l.Owes
  tracked : w.Tracked
  tidy : w.Tidy

theorem Orderly.reaches {u w : World} (h : u.Orderly) (reached : Reaches Step.KeepsWaitable u w) :
    w.Orderly := by
  have sets : SetsOnly Step.KeepsWaitable fun _ v => v.Waitable :=
    fun _ _ v ok given => ok v given
  refine ⟨reached.clocked h.clocked, reached.inForce sets h.timely, fun i l there => ?_,
    h.tracked.reaches reached, h.tidy.reaches h.clocked reached⟩
  exact reached.every (P := fun _ l => l.Owes) h.clocked sets h.timely h.owes
    (fun _ _ _ _ _ _ _ created => Launch.create_owes created)
    (fun _ _ _ _ _ _ owes passes => owes.passes passes) there

theorem Orderly.of_new {start : World} (new : start.runs = [])
    (timely : start.InForce fun _ v => v.Waitable) : start.Orderly := by
  have none {i : Nat} {l : Launch} : start.runs[i]? ≠ some (.accepted l) := by simp [new]
  exact ⟨clocked_of_new new, timely, fun _ _ there => (none there).elim, tracked_of_new new,
    fun _ _ there => (none there).elim⟩

section
variable {u v w : World} {launcher : String}

theorem pending_eq_countP (w : World) (launcher : String) :
    w.pending launcher =
      w.runs.zipIdx.countP fun r => r.1.isOn launcher && w.tasks.contains r.2 := by
  rw [pending, outstanding, List.length_map, List.countP_eq_length_filter]

theorem unreturned_eq_countP (w : World) (launcher : String) :
    w.unreturned launcher = w.runs.zipIdx.countP fun r =>
      r.1.launch?.any fun l => l.launcher = launcher && !l.doneBy w.now := by
  conv_lhs => rw [unreturned, ← List.zipIdx_map_fst 0 w.runs, List.countP_map]
  rfl

theorem Orderly.going (h : w.Orderly) {i : Nat} {l : Launch}
    (there : w.runs[i]? = some (.accepted l)) (undone : l.doneBy w.now = false) :
    l.stage ≠ .ended := by
  intro ended
  obtain ⟨call, calls, clock⟩ := (h.owes i l there).of_ended ended
  have past : l.doneAt call ≤ w.now := clock ▸ (h.clocked i l there).past
  simp [Launch.doneBy, calls, past] at undone

theorem Orderly.unreturned_le (h : w.Orderly) (launcher : String) :
    w.unreturned launcher ≤ w.pending launcher := by
  rw [pending_eq_countP, unreturned_eq_countP]
  apply List.countP_mono_left
  rintro ⟨r, i⟩ member undone
  have there := List.mem_zipIdx_iff_getElem?.mp member
  cases r with
  | refused _ _ => cases undone
  | accepted l =>
    simp only [Run.launch?, Option.any_some, Bool.and_eq_true, decide_eq_true_eq,
      Bool.not_eq_true'] at undone
    have kept := h.tracked i l there (h.going there undone.2)
    simp [Run.isOn, Run.launch?, undone.1, kept]

/-- Where nothing is left to do now, a handler is done if and only if its launch has ended. -/
theorem Orderly.unreturned_eq (h : w.Orderly) (settled : w.Settled) (launcher : String) :
    w.unreturned launcher = (w.outstanding launcher).countP fun i => !w.isDone i := by
  rw [unreturned_eq_countP, outstanding, List.countP_map, List.countP_filter]
  apply List.countP_congr
  rintro ⟨r, i⟩ member
  have there := List.mem_zipIdx_iff_getElem?.mp member
  cases r with
  | refused _ _ => simp [Run.launch?, Run.isOn]
  | accepted l =>
    simp only [Run.launch?, Run.isOn, Option.any_some, Bool.and_eq_true, decide_eq_true_eq,
      Bool.not_eq_true', Function.comp_apply, List.contains_iff_mem, w.isDone_eq_false]
    constructor
    · rintro ⟨owner, undone⟩
      have going := h.going there undone
      exact ⟨⟨l, there, going⟩, owner, h.tracked i l there going⟩
    · rintro ⟨⟨_, there', going⟩, owner, -⟩
      cases Option.some.inj (there.symm.trans there')
      refine ⟨owner, ?_⟩
      cases h.owes i l there with
      | call _ calls => simp [Launch.doneBy, calls]
      | time _ _ calls due =>
        have ahead := settled.lt_next there due
        simp [Launch.doneBy, calls, ahead]
      | nothing ended _ _ => exact (going ended).elim

theorem Orderly.pending_eq (h : w.Orderly) (settled : w.Settled) (launcher : String) :
    w.pending launcher = w.unreturned launcher + w.lapsed launcher := by
  rw [h.unreturned_eq settled, lapsed, pending, Nat.add_comm,
    List.length_eq_countP_add_countP w.isDone]
  simp

theorem Swept.lapsed (swept : w.Swept) (launcher : String) : w.lapsed launcher = 0 := by
  rw [World.lapsed, List.countP_eq_zero]
  intro i listed
  obtain ⟨-, -, -, kept⟩ := (w.mem_outstanding launcher i).mp listed
  simp [swept i kept]

theorem step_time {t : Instant} {j : Nat} (clocked : w.Clocked) (first : w.next = some (t, j)) :
    (w.step t j).now = t := by
  obtain ⟨l, there, -⟩ := next_eq_some first
  have time : (w.acted t j l).now = t := Nat.max_eq_right (clocked.le_next first)
  rw [step_eq t there]
  split
  · rw [launch_now, time]
  · exact time

theorem told_now (w : World) : w.told.now = w.now := by
  refine told_keeps (P := fun v => v.now = w.now) (fun v t i h _ soon => ?_) rfl
  rcases step_now v t i with same | later
  · rw [same, h]
  · rw [later, Nat.max_eq_left soon, h]

theorem step_done {t : Instant} {i j : Nat} (h : u.Orderly) (first : u.next = some (t, j))
    (going : u.isDone i = false) (done : (u.step t j).isDone i) :
    ∃ l call, (u.step t j).runs[i]? = some (.accepted l) ∧ l.stage = .ended ∧
      l.calls = [call] ∧ l.doneAt call = (u.step t j).now := by
  obtain ⟨l, there, open_⟩ := (u.isDone_eq_false i).mp going
  rcases step_run first there with spared | ⟨-, acted⟩
  · exact (open_ (ended_of_isDone done spared)).elim
  · have ended := ended_of_isDone done acted
    have later : (u.step t j).Orderly := h.reaches (step_reaches first)
    obtain ⟨call, calls, clock⟩ := (later.owes i _ acted).of_ended ended
    refine ⟨_, call, acted, ended, calls, ?_⟩
    rw [← clock, Launch.act_clock, step_time h.clocked first]

theorem gatherWithin_last {numbers : List Nat} {fuel : Nat} (h : u.Orderly)
    (gathered : gatherWithin numbers fuel u = some w)
    (undone : ∃ i ∈ numbers, u.isDone i = false) :
    ∃ i ∈ numbers, ∃ l call, w.runs[i]? = some (.accepted l) ∧ l.stage = .ended ∧
      l.calls = [call] ∧ l.doneAt call = w.now := by
  induction fuel generalizing u with
  | zero => cases gathered
  | succ fuel ih =>
    obtain ⟨i, listed, going⟩ := undone
    have some_going : ¬ numbers.all u.isDone := by
      intro all
      exact Bool.false_ne_true (going.symm.trans (List.all_eq_true.mp all i listed))
    unfold gatherWithin at gathered
    rw [if_neg some_going] at gathered
    cases first : u.next with
    | none => simp [first] at gathered
    | some c =>
      obtain ⟨t, j⟩ := c
      simp only [first] at gathered
      by_cases all : numbers.all (u.step t j).isDone
      · -- the action that has just been taken was the last one to wait for
        have last : some (u.step t j) = some w := by
          cases fuel with
          | zero => cases gathered
          | succ fuel => rwa [gatherWithin, if_pos all] at gathered
        cases Option.some.inj last
        exact ⟨i, listed, step_done h first going (List.all_eq_true.mp all i listed)⟩
      · have rest : ∃ i ∈ numbers, (u.step t j).isDone i = false := by simpa using all
        exact ih (h.reaches (step_reaches first)) gathered rest

end

end World

section
variable {allowed : Step → Prop} {u w : World} {i : Nat} {l : Launch}

theorem Reaches.rests (reached : Reaches allowed u w) (there : u.runs[i]? = some (.accepted l))
    (ended : l.stage = .ended) :
    ∃ l', w.runs[i]? = some (.accepted l') ∧ l'.launcher = l.launcher ∧ l'.calls = l.calls ∧
      ∀ call, l'.doneAt call = l.doneAt call := by
  obtain ⟨l', there', -, launcher, calls, handler⟩ := reached.keeps_always
    (P := fun l' => l'.stage = .ended ∧ l'.launcher = l.launcher ∧ l'.calls = l.calls ∧
      l'.handler = l.handler) there ⟨ended, rfl, rfl, rfl⟩
    (fun l' t _ h due => by simp [Launch.next, Launch.awaited, h.1] at due) (fun _ _ h => h)
  exact ⟨l', there', launcher, calls, fun call => by rw [Launch.doneAt, Launch.doneAt, handler]⟩

theorem Reaches.owner (reached : Reaches allowed u w) {l₀ : Launch}
    (was : u.runs[i]? = some (.accepted l₀)) (there : w.runs[i]? = some (.accepted l)) :
    l.launcher = l₀.launcher := by
  obtain ⟨l', there', same⟩ := reached.keeps_always (P := fun l' => l'.launcher = l₀.launcher)
    was rfl (fun l' t timeout h _ => (l'.act_launcher t timeout).trans h) (fun _ _ h => h)
  cases Option.some.inj (there.symm.trans there')
  exact same

end

namespace World

variable {u m : World} {launcher : String}

/-- The wait of a drain ends when the last launch it waits for is done. Where all are done already,
they are so just now, or their tasks would have been discarded. -/
theorem gather_last (h : u.Orderly)
    (gathered : gatherWithin (u.outstanding launcher) u.effort u = some m)
    (pending : u.pending launcher ≠ 0) :
    ∃ i ∈ u.outstanding launcher, ∃ l call, m.runs[i]? = some (.accepted l) ∧ l.stage = .ended ∧
      l.calls = [call] ∧ l.doneAt call = m.now := by
  by_cases all : (u.outstanding launcher).all u.isDone
  · rw [gatherWithin_done all] at gathered
    cases Option.some.inj gathered
    obtain ⟨i, listed⟩ := pending_ne_zero.mp pending
    obtain ⟨l, there, -, kept⟩ := (u.mem_outstanding launcher i).mp listed
    have ended := ended_of_isDone (List.all_eq_true.mp all i listed) there
    obtain ⟨call, calls, clock⟩ := (h.owes i l there).of_ended ended
    exact ⟨i, listed, l, call, there, ended, calls, clock ▸ h.tidy i l there kept ended⟩
  · exact gatherWithin_last h gathered (by simpa using all)

/-- A drain that has to wait returns when the last handler of its launcher is done. -/
theorem drainWithin_last {rounds : Nat} (h : u.Orderly)
    (returned : drainWithin launcher rounds u = some m) (pending : u.pending launcher ≠ 0) :
    ∃ (i : Nat) (l : Launch) (call : Instant × Completion), m.runs[i]? = some (.accepted l) ∧
      l.launcher = launcher ∧ l.calls = [call] ∧ l.doneAt call = m.now := by
  induction rounds generalizing u with
  | zero => cases returned
  | succ rounds ih =>
    unfold drainWithin at returned
    rw [if_neg pending] at returned
    obtain ⟨v, gathered, rest⟩ := Option.bind_eq_some_iff.mp returned
    have waited : Reaches Step.KeepsWaitable u v := gatherWithin_reaches gathered
    have turned : Reaches Step.KeepsWaitable v v.told.told :=
      (told_reaches v).trans (told_reaches v.told)
    have orderly : v.told.told.Orderly := h.reaches (waited.trans turned)
    by_cases idle : v.told.told.pending launcher = 0
    · have now : v.told.told.now = v.now := (told_now _).trans (told_now v)
      have last : some v.told.told = some m := by
        cases rounds with
        | zero => cases rest
        | succ rounds => rwa [drainWithin, if_pos idle] at rest
      cases Option.some.inj last
      obtain ⟨i, listed, l, call, there, ended, calls, done⟩ :=
        gather_last h gathered pending
      obtain ⟨l₀, was, owner, -⟩ := (u.mem_outstanding launcher i).mp listed
      have same : l.launcher = l₀.launcher := waited.owner was there
      obtain ⟨l', there', launcher', calls', done'⟩ := turned.rests there ended
      refine ⟨i, l', call, there', ?_, calls'.trans calls, ?_⟩
      · rw [launcher', same, owner]
      · rw [done', done, now]
    · exact ih orderly rest idle

/-- At the moment `m` a drain of `w` may return: everything launched so far has had its handler
called and is done, and the last one is done just now. -/
structure DrainsAt (w m : World) (launcher : String) : Prop where
  idle : m.pending launcher = 0
  done : ∀ (i : Nat) (l : Launch), m.runs[i]? = some (.accepted l) → l.launcher = launcher →
    ∃ call, l.calls = [call] ∧ l.doneAt call ≤ m.now
  atOnce : w.pending launcher = 0 → m = w
  last : w.pending launcher ≠ 0 → ∃ (i : Nat) (l : Launch) (call : Instant × Completion),
    m.runs[i]? = some (.accepted l) ∧ l.launcher = launcher ∧ l.calls = [call] ∧
      l.doneAt call = m.now

theorem Orderly.drainsAt {w : World} (h : w.Orderly) (returned : w.drained launcher = some m) :
    w.DrainsAt m launcher := by
  obtain ⟨reached, idle⟩ : Reaches Step.KeepsWaitable w m ∧ m.pending launcher = 0 :=
    drainWithin_reaches returned
  have orderly := h.reaches reached
  refine ⟨idle, fun i l there owner => ?_, fun nothing => ?_, drainWithin_last h returned⟩
  · have ended : l.stage = .ended := ended_of_pending_eq_zero orderly.tracked idle there owner
    obtain ⟨call, calls, clock⟩ := (orderly.owes i l there).of_ended ended
    exact ⟨call, calls, clock ▸ (orderly.clocked i l there).past⟩
  · rw [drained, drainWithin, if_pos nothing] at returned
    exact (Option.some.inj returned).symm

end World

/-- Whatever launches, waits, settings and signals came before: as many launches are pending on a
launcher as have a handler that is not done, and those whose tasks are discarded when the loop turns
again; there are none of these when nothing is left to be carried out, as after a wait or a drain. A
drain returns at the instant the last handler is done. -/
theorem pending_accounts {start w : World} (new : start.runs = [])
    (timely : start.InForce fun _ v => v.Waitable)
    (reached : Reaches Step.KeepsWaitable start w) (launcher : String) :
    w.unreturned launcher ≤ w.pending launcher ∧
    (w.Settled → w.pending launcher = w.unreturned launcher + w.lapsed launcher) ∧
    (w.Idle → w.pending launcher = w.unreturned launcher) ∧
    (∀ ms v, w.sleep ms = some v → v.Idle) ∧
    ∀ v, w.drain launcher = some v → v.Idle ∧
      ∃ m, w.drained launcher = some m ∧ w.DrainsAt m launcher ∧ v.now = m.now := by
  have orderly : w.Orderly := (World.Orderly.of_new new timely).reaches reached
  refine ⟨orderly.unreturned_le launcher, fun settled => orderly.pending_eq settled launcher,
    fun idle => ?_, fun _ _ => World.sleep_idle, fun v drained => ⟨World.drain_idle drained, ?_⟩⟩
  · rw [orderly.pending_eq idle.settled, idle.swept.lapsed, Nat.add_zero]
  · obtain ⟨m, returned, settled⟩ := Option.bind_eq_some_iff.mp drained
    have rest : Reaches Step.KeepsWaitable m v ∧ v.now = max m.now m.now ∧ _ :=
      settleWithin_reaches settled
    exact ⟨m, returned, orderly.drainsAt returned, rest.2.1.trans (Nat.max_self _)⟩

/-- A handler that makes a launch, whose handler takes 5 ms more: a drain waits for both. -/
theorem nested_launch_drained :
    let start := World.solo { timeout := .flag true }
    let later := World.soloTarget (.starts { exit := some 1, lifetime := 10 })
    let u := (start.launch (World.soloTarget (.starts { exit := some 0, lifetime := 20 }))
      (some (.launches later (some (.lingers 5))))).world
    ∃ w v m, u.sleep 15 = some w ∧ w.pending "main" = 1 ∧ w.unreturned "main" = 1 ∧
      w.drain "main" = some v ∧ w.drained "main" = some m ∧ w.DrainsAt m "main" ∧
      m.runs.length = 2 ∧ v.now = Clock.millis 35 := by
  intro start later u
  have check : (u.sleep 15).any fun w =>
      w.pending "main" = 1 && (w.drained "main").any (·.runs.length = 2) &&
        (w.drain "main").any (·.now = Clock.millis 35) := by decide +kernel
  obtain ⟨w, slept, h⟩ := (Option.any_eq_true _ _).mp check
  simp only [Bool.and_eq_true, decide_eq_true_eq, Option.any_eq_true] at h
  obtain ⟨⟨pending, m, returned, two⟩, v, drained, now⟩ := h
  have timely : start.InForce fun _ v => v.Waitable := World.solo_inForce trivial fun _ => trivial
  have waited : Reaches Step.KeepsWaitable u w ∧ _ ∧ w.Settled := sleep_reaches slept
  have begun : Reaches Step.KeepsWaitable start u := .of_move (.launch _ _)
  obtain ⟨-, -, -, rests, -⟩ := pending_accounts rfl timely begun "main"
  obtain ⟨-, -, agree, -, drains⟩ := pending_accounts rfl timely (begun.trans waited.1) "main"
  obtain ⟨-, m', returned', drainsAt, -⟩ := drains v drained
  cases Option.some.inj (returned.symm.trans returned')
  exact ⟨w, v, m, slept, pending, (agree (rests 15 w slept)).symm.trans pending, drained, returned,
    drainsAt, two, now⟩

/-- Under a number that no double can hold a drain returns at once, while the child still runs and
the handler is never called. -/
theorem huge_timeout_not_drained :
    let timeout : Value := .integer (10 ^ 400)
    let b : Behaviour := { exit := some 0, lifetime := 20 }
    timeout.isNumber ∧
      ∃ w l, (World.solo { timeout := timeout }).through
          [.run (World.soloTarget (.starts b)) (some .records), .drain "main"] = some w ∧
        w.now = 0 ∧ w.pending "main" = 0 ∧ w.unreturned "main" = 1 ∧
        w.runs[0]? = some (.accepted l) ∧ l.calls = [] ∧ l.next = none := by
  intro timeout b
  have check : ((World.solo { timeout := timeout }).through
      [.run (World.soloTarget (.starts b)) (some .records), .drain "main"]).any
      fun w => w.now = 0 && w.pending "main" = 0 && w.unreturned "main" = 1 &&
        w.shows 0 fun l => l.calls.isEmpty && l.next.isNone := by decide +kernel
  obtain ⟨w, played, h⟩ := (Option.any_eq_true _ _).mp check
  simp only [Bool.and_eq_true, decide_eq_true_eq] at h
  obtain ⟨⟨⟨now, pending⟩, unreturned⟩, shown⟩ := h
  obtain ⟨l, there, is⟩ := (w.shows_iff 0 _).mp shown
  simp only [Bool.and_eq_true, List.isEmpty_iff, Option.isNone_iff_eq_none] at is
  exact ⟨rfl, w, l, played, now, pending, unreturned, there, is⟩

end JarLaunch
