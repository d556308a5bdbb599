import JarLaunch.Failure.Account
import JarLaunch.Proofs.Prospect
import JarLaunch.Proofs.Success

/-! The way of a launch whose deadline passes, in closed form. Three waits, one inside the other,
and two signals come to one formula: the instant of the call follows from the child's own exit, from
how it reacts to the two signals and from how long its pipes are held. What is reported is the exit
that comes first; and pipes are found open exactly when the call does not wait for them. -/
namespace JarLaunch

open Launch (grace sooner)

def Reaction.answer (r : Reaction) (t : Instant) : Option (Instant × Int) :=
  match r with
  | .exits delay code => some (t + Clock.millis delay, code)
  | .ignores | .lost => none

theorem Reaction.answer_instant (r : Reaction) (t : Instant) :
    (r.answer t).map (·.1) = r.exitFrom t := by
  cases r <;> rfl

theorem Reaction.le_answer {r : Reaction} {t : Instant} {e : Instant × Int}
    (h : r.answer t = some e) : t ≤ e.1 := by
  cases r with
  | exits delay code =>
    cases Option.some.inj h
    exact Nat.le_add_right _ _
  | ignores | lost => cases h

namespace Child

/-- The earlier of two exits that may never come, and the older of two at one instant. -/
def earlier : Option (Instant × Int) → Option (Instant × Int) → Option (Instant × Int)
  | none, b => b
  | some a, none => some a
  | some a, some b => if a.1 ≤ b.1 then some a else some b

section
variable {a b : Option (Instant × Int)} {e : Instant × Int}

theorem earlier_eq (h : earlier a b = some e) : a = some e ∨ b = some e := by
  cases a with
  | none => exact .inr h
  | some x =>
    cases b with
    | none => exact .inl h
    | some y =>
      simp only [earlier] at h
      split at h
      · exact .inl h
      · exact .inr h

theorem earlier_instant (a b : Option (Instant × Int)) :
    (earlier a b).map (·.1) = sooner (a.map (·.1)) (b.map (·.1)) := by
  cases a with
  | none => cases b <;> rfl
  | some x =>
    cases b with
    | none => rfl
    | some y =>
      simp only [earlier, Option.map_some, sooner]
      split
      · rename_i le
        rw [Nat.min_eq_left le, Option.map_some]
      · rename_i later
        rw [Nat.min_eq_right (Nat.le_of_not_le later), Option.map_some]

theorem filter_earlier {t : Instant} (later : ∀ y, b = some y → t < y.1) :
    (earlier a b).filter (·.1 ≤ t) = a.filter (·.1 ≤ t) := by
  cases b with
  | none => cases a <;> rfl
  | some y =>
    have notYet : ¬ y.1 ≤ t := Nat.not_le_of_lt (later y rfl)
    cases a with
    | none => simp [earlier, Option.filter, notYet]
    | some x =>
      simp only [earlier]
      split
      · rfl
      · rename_i after
        have neither : ¬ x.1 ≤ t := fun le =>
          after (Nat.le_trans le (Nat.le_of_lt (later y rfl)))
        simp [Option.filter, notYet, neither]

theorem earlier_of_le (le : ∀ y, b = some y → e.1 ≤ y.1) : earlier (some e) b = some e := by
  cases b with
  | none => rfl
  | some y => exact if_pos (le y rfl)

end

section
variable {c : Child} {now : Instant}

theorem exitAt_exit (c : Child) (t : Instant) (code : Int) :
    (c.exitAt t code).exit = earlier c.exit (some (t, code)) := by
  unfold exitAt
  cases exit : c.exit with
  | none => rfl
  | some e =>
    simp only [earlier]
    split
    · exact exit
    · rfl

theorem signal?_exit (reaction : Reaction) (running : ¬ c.exitedBy now) :
    ((c.signal? reaction now).getD c).exit = earlier c.exit (reaction.answer now) ∧
      ((c.signal? reaction now).getD c).behaviour = c.behaviour := by
  have unfinished : ¬ c.finishedBy now := fun finished => running (exitedBy_of_finishedBy finished)
  have same : earlier c.exit none = c.exit := by cases c.exit <;> rfl
  cases reaction with
  | exits delay code =>
    have takes : c.signal? (.exits delay code) now =
        some (c.exitAt (now + Clock.millis delay) code) := by
      simp [signal?, unfinished, running]
    rw [takes, Option.getD_some]
    refine ⟨c.exitAt_exit _ code, ?_⟩
    unfold exitAt
    split
    · split <;> rfl
    · rfl
  | ignores | lost => simp [signal?, unfinished, running, Reaction.answer, same]

theorem signal?_running {reaction : Reaction} (running : ¬ c.exitedBy now)
    (later : ∀ e, reaction.answer now = some e → now < e.1) :
    ¬ ((c.signal? reaction now).getD c).exitedBy now := by
  rw [exitedBy_iff, leaves, (signal?_exit reaction running).1]
  rintro ⟨t, leaves, past⟩
  obtain ⟨e, exit, rfl⟩ := Option.map_eq_some_iff.mp leaves
  rcases earlier_eq exit with before | answer
  · exact running ((c.exitedBy_iff now).mpr ⟨e.1, by rw [Child.leaves, before]; rfl, past⟩)
  · exact Nat.not_lt_of_le past (later e answer)

theorem lt_finish {f : Instant} (running : ¬ c.exitedBy now) (finish : c.finish = some f) :
    now < f :=
  lt_of_unfinished (fun finished => running (exitedBy_of_finishedBy finished)) finish

theorem signal?_exited (reaction : Reaction) (exited : c.exitedBy now) :
    (c.signal? reaction now).getD c = c ∧ (c.signal? reaction now).all (·.exitedBy now) := by
  unfold signal?
  split
  · exact ⟨rfl, rfl⟩
  · exact ⟨rfl, exited⟩

end

end Child

namespace Behaviour

section
variable (b : Behaviour) (begun deadline : Instant)

def ownEnd : Option (Instant × Int) :=
  b.exit.map fun code => (begun + Clock.millis b.lifetime, code)

/-- The exits that may come: the child's own, one because it is asked to stop at the deadline and
one because it is killed a second later. -/
def candidates : List (Instant × Int) :=
  (b.ownEnd begun).toList ++ (b.onTerminate.answer deadline).toList ++
    (b.onKill.answer (deadline + grace)).toList

def firstExit : Option (Instant × Int) :=
  Child.earlier (Child.earlier (b.ownEnd begun) (b.onTerminate.answer deadline))
    (b.onKill.answer (deadline + grace))

def codeAt (t : Instant) : Option Int := ((b.firstExit begun deadline).filter (·.1 ≤ t)).map (·.2)

def finishFrom (exit : Option Instant) : Option Instant :=
  exit.bind fun e => b.hold.map (e + Clock.millis ·)

def Apart (t : Instant) : Prop :=
  t ≠ deadline ∧ t ≠ deadline + grace ∧ t ≠ deadline + grace + grace

/-- No exit comes, and no pipe closes, just when a launch stops waiting. -/
def Untied : Prop :=
  ∀ e ∈ b.candidates begun deadline,
    Apart deadline e.1 ∧ ∀ f ∈ b.finishFrom (some e.1), Apart deadline f

instance (t : Instant) : Decidable (Apart deadline t) := inferInstanceAs (Decidable (_ ∧ _))

instance : Decidable (b.Untied begun deadline) :=
  inferInstanceAs (Decidable (∀ e ∈ b.candidates begun deadline, _))

/-- When a launch calls its handler for a child that is not finished at the deadline and would exit
by itself at some instant. A child that cannot be asked to stop, or has exited, is not waited for;
nor are the pipes of one that exits before it is killed, for more than a second; but those of one
that is killed are. -/
def expiry (own : Option Instant) : Option Instant :=
  if b.onTerminate = .lost ∨ own.any (· < deadline) then
    sooner (b.finishFrom own) (some (deadline + grace))
  else
    let exit := sooner own (b.onTerminate.exitFrom deadline)
    if (b.finishFrom exit).any (· < deadline + grace) then b.finishFrom exit
    else if exit.any (· < deadline + grace) then
      sooner (b.finishFrom exit) (some (deadline + grace + grace))
    else b.finishFrom (sooner exit (b.onKill.exitFrom (deadline + grace)))

end

end Behaviour

/-- A prospect as the closed form has it: the call comes when it should, with the code of the first
exit, and pipes are open exactly if the call is made at the end of one of the two seconds. -/
inductive Prospect.Closes (b : Behaviour) (begun deadline : Instant) :
    Option Instant → Prospect → Prop where
  | never : Closes b begun deadline none .never
  | call {t : Instant} {c : Child} (code : c.returncode t = b.codeAt begun deadline t)
      (pipes : c.finishedBy t ↔ ¬ (t = deadline + grace ∨ t = deadline + grace + grace)) :
      Closes b begun deadline (some t) (.call t c true)

namespace Prospect

section
variable {b : Behaviour} {begun deadline now f : Instant} {c : Child}

theorem finished_closes (finish : c.finish = some f)
    (apart : Behaviour.Apart deadline f)
    (code : c.returncode f = b.codeAt begun deadline f) :
    Closes b begun deadline (some f) (.drained c f (f + grace)) := by
  have now : max f (c.finishOr (f + grace)) = f := by
    simp [Child.finishOr, finish]
  rw [drained, now]
  have finished : c.finishedBy f := Child.finishedBy_of_finish finish (Nat.le_refl f)
  exact .call code (iff_of_true finished (not_or.mpr apart.2))

theorem killed_closes
    (ahead : ∀ f, c.finish = some f → now ≤ f ∧ Behaviour.Apart deadline f)
    (code : ∀ t, c.returncode t = b.codeAt begun deadline t) :
    Closes b begun deadline c.finish (.killed c now) := by
  unfold killed
  cases finish : c.finish with
  | none => exact .never
  | some f =>
    obtain ⟨later, apart⟩ := ahead f finish
    dsimp only
    rw [Nat.max_eq_right later]
    exact finished_closes finish apart (code f)

theorem drained_closes
    (ahead : ∀ f, c.finish = some f → now ≤ f ∧ Behaviour.Apart deadline f)
    (bound : now = deadline ∨ now = deadline + grace)
    (code : ∀ t, t ≤ now + grace → c.returncode t = b.codeAt begun deadline t) :
    Closes b begun deadline (sooner c.finish (some (now + grace)))
      (.drained c now (now + grace)) := by
  have later : now ≤ c.finishOr (now + grace) := by
    unfold Child.finishOr
    split
    · exact Nat.le_add_right _ _
    · rename_i f finish
      exact Nat.le_min.mpr ⟨(ahead f finish).1, Nat.le_add_right _ _⟩
  rw [c.sooner_bound, drained, Nat.max_eq_right later]
  rcases Launch.finishOr_cases c (now + grace) with ⟨f, finish, le, same⟩ | ⟨unfinished, same⟩
  · rw [same]
    have finished : c.finishedBy f := Child.finishedBy_of_finish finish (Nat.le_refl f)
    exact .call (code f le) (iff_of_true finished (not_or.mpr (ahead f finish).2.2))
  · rw [same]
    refine .call (code _ (Nat.le_refl _)) (iff_of_false unfinished (not_not_intro ?_))
    rcases bound with first | second
    · exact .inl (congrArg (· + grace) first)
    · exact .inr (congrArg (· + grace) second)

structure Among (b : Behaviour) (begun deadline : Instant) (c : Child) : Prop where
  behaviour : c.behaviour = b
  exit : ∀ e, c.exit = some e → e ∈ b.candidates begun deadline

theorem Among.leaves_apart (among : Among b begun deadline c) (untied : b.Untied begun deadline)
    {t : Instant} (leaves : c.leaves = some t) : Behaviour.Apart deadline t := by
  obtain ⟨e, exit, rfl⟩ := Option.map_eq_some_iff.mp leaves
  exact (untied e (among.exit e exit)).1

theorem Among.finish_apart (among : Among b begun deadline c) (untied : b.Untied begun deadline)
    (finish : c.finish = some f) : Behaviour.Apart deadline f := by
  obtain ⟨t, leaves, -⟩ := Child.leaves_le_finish finish
  obtain ⟨e, exit, rfl⟩ := Option.map_eq_some_iff.mp leaves
  rw [c.finish_eq, leaves, among.behaviour] at finish
  exact (untied e (among.exit e exit)).2 f finish

theorem kill_after (untied : b.Untied begun deadline) {e : Instant × Int}
    (h : b.onKill.answer (deadline + grace) = some e) : deadline + grace < e.1 := by
  have member : e ∈ b.candidates begun deadline := by simp [Behaviour.candidates, h]
  exact Nat.lt_of_le_of_ne (Reaction.le_answer h) (untied e member).1.2.1.symm

theorem stop_after (untied : b.Untied begun deadline) {e : Instant × Int}
    (h : b.onTerminate.answer deadline = some e) : deadline < e.1 := by
  have member : e ∈ b.candidates begun deadline := by simp [Behaviour.candidates, h]
  exact Nat.lt_of_le_of_ne (Reaction.le_answer h) (untied e member).1.1.symm

structure Asked (b : Behaviour) (begun deadline : Instant) (c : Child) : Prop where
  behaviour : c.behaviour = b
  exit : c.exit = Child.earlier (b.ownEnd begun) (b.onTerminate.answer deadline)

theorem Asked.among (asked : Asked b begun deadline c) : Among b begun deadline c := by
  refine ⟨asked.behaviour, fun e exit => ?_⟩
  rcases Child.earlier_eq (asked.exit.symm.trans exit) with own | answer
  · simp [Behaviour.candidates, own]
  · simp [Behaviour.candidates, answer]

theorem struck_closes_exited (untied : b.Untied begun deadline) (asked : Asked b begun deadline c)
    (exited : c.exitedBy (deadline + grace)) (unfinished : ¬ c.finishedBy (deadline + grace)) :
    Closes b begun deadline (sooner c.finish (some (deadline + grace + grace)))
      (.struck c (deadline + grace)) := by
  have first : b.firstExit begun deadline = c.exit := by
    obtain ⟨t, leaves, past⟩ := (c.exitedBy_iff _).mp exited
    obtain ⟨e, exit, rfl⟩ := Option.map_eq_some_iff.mp leaves
    rw [Behaviour.firstExit, ← asked.exit, exit]
    exact Child.earlier_of_le fun y kill =>
      Nat.le_trans past (Nat.le_of_lt (kill_after untied kill))
  have spared : (c.kill? (deadline + grace)).getD c = c := (Child.signal?_exited _ exited).1
  simp only [struck, spared, exited, if_true]
  refine drained_closes ?_ (.inr rfl) ?_
  · intro f finish
    exact ⟨Nat.le_of_lt (Child.lt_of_unfinished unfinished finish),
      asked.among.finish_apart untied finish⟩
  · intro t _
    rw [Behaviour.codeAt, first]
    rfl

theorem struck_closes_running (untied : b.Untied begun deadline) (asked : Asked b begun deadline c)
    (running : ¬ c.exitedBy (deadline + grace)) :
    Closes b begun deadline
      (b.finishFrom (sooner c.leaves (b.onKill.exitFrom (deadline + grace))))
      (.struck c (deadline + grace)) := by
  have later : ∀ e, b.onKill.answer (deadline + grace) = some e → deadline + grace < e.1 :=
    fun _ => kill_after untied
  have taken := Child.signal?_exit b.onKill running
  have still := Child.signal?_running running later
  have kills : c.kill? (deadline + grace) = c.signal? b.onKill (deadline + grace) := by
    rw [Child.kill?, asked.behaviour]
  rw [struck, kills]
  generalize (c.signal? b.onKill (deadline + grace)).getD c = k at taken still
  obtain ⟨exit, same⟩ := taken
  have killed : Among b begun deadline k := by
    refine ⟨same.trans asked.behaviour, fun e is => ?_⟩
    rcases Child.earlier_eq (exit.symm.trans is) with before | kill
    · exact asked.among.exit e before
    · simp [Behaviour.candidates, kill]
  have leaves : k.leaves = sooner c.leaves (b.onKill.exitFrom (deadline + grace)) := by
    rw [Child.leaves, exit, Child.earlier_instant, Reaction.answer_instant]
    rfl
  have finish : k.finish = b.finishFrom k.leaves := by
    rw [k.finish_eq, killed.behaviour]
    rfl
  rw [← leaves, ← finish]
  simp only [still, Bool.false_eq_true, if_false]
  refine killed_closes ?_ ?_
  · intro f finish
    exact ⟨Nat.le_of_lt (Child.lt_finish still finish), killed.finish_apart untied finish⟩
  · intro t
    rw [Behaviour.codeAt, Behaviour.firstExit, ← asked.exit, ← exit]
    rfl

theorem terminated_closes (untied : b.Untied begun deadline) (asked : Asked b begun deadline c)
    (running : ¬ c.exitedBy deadline) :
    Closes b begun deadline
      (if (b.finishFrom c.leaves).any (· < deadline + grace) then b.finishFrom c.leaves
        else if c.leaves.any (· < deadline + grace) then
          sooner (b.finishFrom c.leaves) (some (deadline + grace + grace))
        else b.finishFrom (sooner c.leaves (b.onKill.exitFrom (deadline + grace))))
      (.terminated c deadline (deadline + grace)) := by
  have finishes : b.finishFrom c.leaves = c.finish := by
    rw [c.finish_eq, asked.behaviour]
    rfl
  rw [finishes, terminated]
  rcases Launch.finishOr_cases c (deadline + grace) with
    ⟨f, finish, le, same⟩ | ⟨unfinished, same⟩
  · have apart := asked.among.finish_apart untied finish
    have early : f < deadline + grace := Nat.lt_of_le_of_ne le apart.2.1
    have soon : c.finish.any (· < deadline + grace) :=
      (Option.any_eq_true _ _).mpr ⟨f, finish, decide_eq_true early⟩
    have now : max deadline (c.finishOr (deadline + grace)) = f := by
      rw [same]
      exact Nat.max_eq_right (Nat.le_of_lt (Child.lt_finish running finish))
    have finished : c.finishedBy f := Child.finishedBy_of_finish finish (Nat.le_refl f)
    simp only [soon, if_true, now, finished]
    rw [finish]
    refine finished_closes finish apart ?_
    rw [Behaviour.codeAt, Behaviour.firstExit, ← asked.exit,
      Child.filter_earlier fun y kill => Nat.lt_trans early (kill_after untied kill)]
    rfl
  · have slow : ¬ c.finish.any (· < deadline + grace) := by
      intro soon
      obtain ⟨f, finish, early⟩ := (Option.any_eq_true _ _).mp soon
      exact unfinished (Child.finishedBy_of_finish finish (Nat.le_of_lt (of_decide_eq_true early)))
    have now : max deadline (c.finishOr (deadline + grace)) = deadline + grace := by
      rw [same]
      exact Nat.max_eq_right (Nat.le_add_right _ _)
    rw [if_neg slow]
    simp only [now, unfinished, Bool.false_eq_true, if_false]
    split
    · rename_i soon
      obtain ⟨t, leaves, early⟩ := (Option.any_eq_true _ _).mp soon
      exact struck_closes_exited untied asked
        ((c.exitedBy_iff _).mpr ⟨t, leaves, Nat.le_of_lt (of_decide_eq_true early)⟩) unfinished
    · rename_i late
      refine struck_closes_running untied asked ?_
      rw [c.exitedBy_iff]
      rintro ⟨t, leaves, past⟩
      have early := Nat.lt_of_le_of_ne past (asked.among.leaves_apart untied leaves).2.1
      exact late ((Option.any_eq_true _ _).mpr ⟨t, leaves, decide_eq_true early⟩)

theorem start_among (pid : Nat) : Among b begun deadline (Child.start pid begun b) := by
  refine ⟨rfl, fun e exit => ?_⟩
  have own : b.ownEnd begun = some e := exit
  simp [Behaviour.candidates, own]

theorem finish_start_eq (pid : Nat) (begun : Instant) (b : Behaviour) :
    (Child.start pid begun b).finish = b.finishFrom (b.ownExit begun) := by
  rw [Child.finish_eq, Child.leaves_start]
  rfl

theorem expired_closes_unasked (pid : Nat) (untied : b.Untied begun deadline)
    (late : ∀ f, (Child.start pid begun b).finish = some f → deadline ≤ f)
    (unasked : b.onTerminate = .lost ∨ (Child.start pid begun b).exitedBy deadline) :
    Closes b begun deadline
      (sooner (Child.start pid begun b).finish (some (deadline + grace)))
      (.expired (Child.start pid begun b) deadline) := by
  have among : Among b begun deadline (Child.start pid begun b) := start_among pid
  have gone : ((Child.start pid begun b).terminate? deadline).getD (Child.start pid begun b) =
        Child.start pid begun b ∧
      ((Child.start pid begun b).terminate? deadline).all (·.exitedBy deadline) := by
    rcases unasked with lost | exited
    · have none : (Child.start pid begun b).terminate? deadline = none := by
        simp [Child.terminate?, Child.signal?, Child.start, lost]
      rw [none]
      exact ⟨rfl, rfl⟩
    · exact Child.signal?_exited _ exited
  have first (t : Instant) (soon : t ≤ deadline + grace) :
      b.codeAt begun deadline t = (Child.start pid begun b).returncode t := by
    have asked : Child.earlier (b.ownEnd begun) (b.onTerminate.answer deadline) =
        b.ownEnd begun := by
      rcases unasked with lost | exited
      · rw [lost]
        cases b.ownEnd begun <;> rfl
      · obtain ⟨x, leaves, past⟩ := (Child.exitedBy_iff _ _).mp exited
        obtain ⟨e, own, rfl⟩ := Option.map_eq_some_iff.mp leaves
        have own' : b.ownEnd begun = some e := own
        rw [own']
        exact Child.earlier_of_le fun y answer =>
          Nat.le_trans past (Nat.le_of_lt (stop_after untied answer))
    rw [Behaviour.codeAt, Behaviour.firstExit, asked,
      Child.filter_earlier fun y kill => Nat.lt_of_le_of_lt soon (kill_after untied kill)]
    rfl
  rw [expired]
  simp only [gone, if_true]
  exact drained_closes (fun f finish => ⟨late f finish, among.finish_apart untied finish⟩)
    (.inl rfl) fun t soon => (first t soon).symm

theorem expired_closes (pid : Nat) (untied : b.Untied begun deadline)
    (late : ¬ (b.finishFrom (b.ownExit begun)).any (· < deadline)) :
    Closes b begun deadline (b.expiry deadline (b.ownExit begun))
      (.expired (Child.start pid begun b) deadline) := by
  have among : Among b begun deadline (Child.start pid begun b) := start_among pid
  have unfinished : ∀ f, (Child.start pid begun b).finish = some f → deadline ≤ f := by
    intro f finish
    rw [finish_start_eq] at finish
    apply Nat.le_of_not_lt
    intro early
    exact late ((Option.any_eq_true _ _).mpr ⟨f, finish, decide_eq_true early⟩)
  have exited_iff : (b.ownExit begun).any (· < deadline) ↔
      (Child.start pid begun b).exitedBy deadline := by
    rw [Child.exitedBy_iff, Option.any_eq_true, Child.leaves_start]
    constructor
    · rintro ⟨e, own, early⟩
      exact ⟨e, own, Nat.le_of_lt (of_decide_eq_true early)⟩
    · rintro ⟨e, own, past⟩
      have apart := among.leaves_apart untied ((Child.leaves_start pid begun b).trans own)
      exact ⟨e, own, decide_eq_true (Nat.lt_of_le_of_ne past apart.1)⟩
  unfold Behaviour.expiry
  split
  · rename_i unasked
    rw [← finish_start_eq pid]
    exact expired_closes_unasked pid untied unfinished (unasked.imp_right exited_iff.mp)
  · rename_i asks
    obtain ⟨sent, alive⟩ := not_or.mp asks
    have running : ¬ (Child.start pid begun b).exitedBy deadline :=
      fun h => alive (exited_iff.mpr h)
    have later : ∀ e, b.onTerminate.answer deadline = some e → deadline < e.1 :=
      fun _ => stop_after untied
    obtain ⟨a, terminates, same, leaves⟩ := Child.signal?_leaves _ b.onTerminate sent running
    have exit := (Child.signal?_exit b.onTerminate running).1
    have still := Child.signal?_running running later
    rw [terminates, Option.getD_some] at exit still
    have asked : (Child.start pid begun b).terminate? deadline = some a := terminates
    rw [expired]
    simp only [asked, Option.all_some, Option.getD_some, still, Bool.false_eq_true, if_false]
    rw [← Child.leaves_start pid, ← leaves]
    exact terminated_closes untied ⟨same, exit⟩ still

theorem watched_punctual (inTime : c.finish = some f) (soon : f < deadline) (later : now ≤ f) :
    watched c now (some deadline) = .call f c false := by
  have first : c.finishOr deadline = f := by
    rw [Child.finishOr, inTime]
    exact Nat.min_eq_left (Nat.le_of_lt soon)
  have finished : c.finishedBy f := Child.finishedBy_of_finish inTime (Nat.le_refl f)
  simp only [watched, c.sooner_bound, first, Nat.max_eq_right later, finished, if_true]

theorem watched_late (late : ∀ f, c.finish = some f → deadline < f) (later : now ≤ deadline) :
    watched c now (some deadline) = .expired c deadline := by
  rcases Launch.finishOr_cases c deadline with ⟨f, finish, le, -⟩ | ⟨unfinished, same⟩
  · exact (Nat.not_lt_of_le le (late f finish)).elim
  · simp only [watched, c.sooner_bound, same, Nat.max_eq_right later, unfinished,
      Bool.false_eq_true, if_false]

theorem expired_finished (finish : c.finish = some now) : expired c now = .call now c true := by
  have finished : c.finishedBy now := Child.finishedBy_of_finish finish (Nat.le_refl now)
  have none : c.terminate? now = none := by simp [Child.terminate?, Child.signal?, finished]
  have first : c.finishOr (now + grace) = now := by
    rw [Child.finishOr, finish]
    exact Nat.min_eq_left (Nat.le_add_right _ _)
  simp only [expired, none, Option.all_none, if_true, Option.getD_none, drained, first,
    Nat.max_self]

theorem begun_le_finishFrom {f : Instant} (finish : b.finishFrom (b.ownExit begun) = some f) :
    begun ≤ f := by
  rw [← finish_start_eq 0, Child.finish_start] at finish
  obtain ⟨ms, -, rfl⟩ := Option.map_eq_some_iff.mp finish
  exact Nat.le_add_right _ _

theorem armed_unlimited (pid : Nat) (begun : Instant) (b : Behaviour) :
    armed (Child.start pid begun b) begun .unlimited =
      match b.finishFrom (b.ownExit begun) with
      | none => .never
      | some f => .call f (Child.start pid begun b) false := by
  have finish := finish_start_eq pid begun b
  cases is : b.finishFrom (b.ownExit begun) with
  | none =>
    rw [is] at finish
    simp only [armed, watched, finish, sooner]
  | some f =>
    rw [is] at finish
    have finished := Child.finishedBy_of_finish finish (Nat.le_refl f)
    simp only [armed, watched, finish, sooner, Nat.max_eq_right (begun_le_finishFrom is), finished,
      if_true]

/-- A launch with a deadline reports its child as it is if the child is finished before the
deadline, and goes the way of the closed form if not. -/
theorem armed_closes (pid : Nat) {limit : Limit} (armed : limit.deadline begun = some deadline)
    (untied : b.Untied begun deadline) :
    (∀ f, b.finishFrom (b.ownExit begun) = some f → f < deadline →
      Prospect.armed (Child.start pid begun b) begun limit =
        .call f (Child.start pid begun b) false) ∧
    (¬ (b.finishFrom (b.ownExit begun)).any (· < deadline) →
      Closes b begun deadline (b.expiry deadline (b.ownExit begun))
        (.armed (Child.start pid begun b) begun limit)) := by
  cases limit with
  | unlimited | unusable => cases armed
  | expired =>
    obtain rfl : begun = deadline := Option.some.inj armed
    refine ⟨fun f finish early => ?_, expired_closes pid untied⟩
    exact (Nat.not_lt_of_le (begun_le_finishFrom finish) early).elim
  | within span =>
    obtain rfl : begun + span = deadline := Option.some.inj armed
    refine ⟨fun f finish early => ?_, fun late => ?_⟩
    · exact watched_punctual ((finish_start_eq pid begun b).trans finish) early
        (begun_le_finishFrom finish)
    · have closes := expired_closes pid untied late
      rw [← watched_late ?_ (Nat.le_add_right begun span)] at closes
      · exact closes
      · intro f finish
        have apart := (start_among pid).finish_apart untied finish
        apply Nat.lt_of_le_of_ne ?_ apart.1.symm
        apply Nat.le_of_not_lt
        intro early
        rw [finish_start_eq] at finish
        exact late ((Option.any_eq_true _ _).mpr ⟨f, finish, decide_eq_true early⟩)

end

end Prospect

/-- The handler of a launch is called once, at an instant, and never if there is none. -/
structure Launch.CallsAt (w : World) (instant : Option Instant) (l : Launch) : Prop where
  only : ∀ call ∈ l.calls, l.calls = [call] ∧ instant = some call.1
  comes : ∀ t, instant = some t → w.Settled → t ≤ w.now → l.calls ≠ []

/-- What is told of a child that was overdue: the code of the first exit if it has come, and in the
log that pipes are open if the call is made at the end of a second. -/
def Launch.TellsLate (b : Behaviour) (begun deadline : Instant) (l : Launch)
    (call : Instant × Completion) : Prop :=
  ∃ f child, call.2.failure = some f ∧ f.isTimeout ∧
    f.returncode = b.codeAt begun deadline call.1 ∧ l.child = some child ∧
    (pipesOpen child ∈ l.events ↔ call.1 = deadline + grace ∨ call.1 = deadline + grace + grace)

section
variable {w : World} {i : Nat} {l : Launch}

theorem Launch.Heads.callsAt {t : Instant} {child : Child} {late : Bool}
    (heads : l.Heads (.call t child late)) (scripted : l.Scripted) (current : l.Current)
    (there : w.runs[i]? = some (.accepted l)) :
    l.CallsAt w (some t) ∧ (l.calls = [] ∨ l.Answers t child late) := by
  have answered : l.calls = [] ∨ l.Answers t child late := by
    rcases heads.answered scripted with none | ⟨_, _, _, was, answers⟩
    · exact .inl none
    · cases was
      exact .inr answers
  refine ⟨⟨?_, ?_⟩, answered⟩
  · intro call member
    rcases answered with none | answers
    · rw [none] at member
      cases member
    · obtain ⟨timeout, calls⟩ := answers.calls
      rw [calls, List.mem_singleton] at member
      rw [calls, member]
      exact ⟨rfl, rfl⟩
  · intro s is settled past
    cases Option.some.inj is
    obtain ⟨timeout, calls⟩ :=
      (heads.answers current (fun u due => settled.lt_next there due) past).calls
    simp [calls]

theorem Launch.Answers.timedOut_iff {t : Instant} {child : Child} {late : Bool}
    (h : l.Answers t child late) {call : Instant × Completion} (member : call ∈ l.calls) :
    (late → ∃ f, call.2.failure = some f ∧ f.isTimeout ∧ f.returncode = child.returncode t) ∧
      (late = false → ¬ call.2.TimedOut) := by
  obtain ⟨timeout, calls⟩ := h.calls
  rw [calls, List.mem_singleton] at member
  subst member
  constructor
  · intro is
    rw [is]
    exact ⟨_, rfl, rfl, rfl⟩
  · intro is
    rw [is]
    rintro ⟨f, failed, late⟩
    have failed' : Failure.ofExit l.command l.line ((child.returncode t).getD 0) = some f := failed
    rw [Failure.isTimeout_ofExit failed'] at late
    cases late

theorem Launch.Heads.punctual {t : Instant} {child : Child} (heads : l.Heads (.call t child false))
    (scripted : l.Scripted) (current : l.Current) (there : w.runs[i]? = some (.accepted l)) :
    l.CallsAt w (some t) ∧ ∀ call ∈ l.calls, ¬ call.2.TimedOut := by
  obtain ⟨callsAt, answered⟩ := heads.callsAt scripted current there
  refine ⟨callsAt, fun call member => ?_⟩
  rcases answered with none | answers
  · rw [none] at member
    cases member
  · exact (answers.timedOut_iff member).2 rfl

theorem Launch.Heads.silent (heads : l.Heads .never) (scripted : l.Scripted) : l.calls = [] := by
  rcases heads.answered scripted with none | ⟨_, _, _, was, -⟩
  · exact none
  · cases was

theorem Launch.CallsAt.of_silent (silent : l.calls = []) : l.CallsAt w none := by
  refine ⟨fun call member => ?_, fun t is => ?_⟩
  · rw [silent] at member
    cases member
  · cases is

theorem Launch.Heads.timedOut {c : Child} {now : Instant} (heads : l.Heads (.expired c now))
    (scripted : l.Scripted) {call : Instant × Completion} (member : call ∈ l.calls) :
    call.2.TimedOut := by
  rcases heads.answered scripted with none | ⟨t, child, late, was, answers⟩
  · rw [none] at member
    cases member
  · obtain ⟨timeout, calls⟩ := answers.calls
    rw [calls, List.mem_singleton] at member
    have fate : l.expiredFate timeout c now = .call t (l.report timeout child t late) := by
      rw [← foresee_expired, was]
      rfl
    rw [member]
    exact expiredFate_timesOut fate

theorem Launch.Heads.closes {b : Behaviour} {begun deadline : Instant} {instant : Option Instant}
    {p : Prospect} (heads : l.Heads p) (scripted : l.Scripted) (current : l.Current)
    (there : w.runs[i]? = some (.accepted l)) (closes : p.Closes b begun deadline instant) :
    l.CallsAt w instant ∧ ∀ call ∈ l.calls, l.TellsLate b begun deadline call := by
  cases closes with
  | never =>
    have silent := heads.silent scripted
    exact ⟨.of_silent silent, by simp [silent]⟩
  | @call t c code pipes =>
    obtain ⟨callsAt, none | answers⟩ := heads.callsAt scripted current there
    · exact ⟨callsAt, by simp [none]⟩
    · refine ⟨callsAt, ?_⟩
      intro call member
      obtain ⟨f, failed, late, returncode⟩ := (answers.timedOut_iff member).1 rfl
      have instant : call.1 = t := (Option.some.inj (callsAt.only call member).2).symm
      refine ⟨f, c, failed, late, ?_, answers.has, ?_⟩
      · rw [returncode, code, instant]
      · rw [answers.pipes, pipes, instant, not_not]
        exact and_iff_right rfl

end

/-- A number of seconds that a double can hold. -/
def Value.Held : Value → Prop
  | .flag _ | .double (.finite _ _) | .double (.infinite _) => True
  | .integer n => Double.nearest n.natAbs 1 < Double.limit
  | _ => False

theorem Value.Held.usable {v : Value} (held : v.Held) : Limit.ofSetting v ≠ .unusable := by
  apply Value.Waitable.usable
  cases v with
  | flag _ | double _ => trivial
  | integer n =>
    rcases Int.le_total n 0 with low | high
    · exact .inl low
    · have same : n.natAbs = n.toNat := by omega
      exact .inr (same ▸ held)
  | absent | text _ | path _ | bytes _ | list _ => exact held.elim

theorem Value.Held.deadline {v : Value} (held : v.Held) {span : Span} (h : v.lasting? = some span)
    (begun : Instant) : (Limit.ofSetting v).deadline begun = some (begun + span) := by
  rcases Limit.ofSetting_lasting h with within | ⟨expired, rfl⟩ | unusable
  · rw [within]
    rfl
  · rw [expired]
    rfl
  · exact (held.usable unusable).elim

theorem Limit.ofSetting_atMostZero {v : Value} (h : v.atMostZero = .ok true) :
    ofSetting v = .expired := by
  cases v with
  | flag b =>
    cases b with
    | false => rfl
    | true => cases h
  | integer n =>
    have low : n ≤ 0 := by simpa [Value.atMostZero] using h
    simp [ofSetting, low]
  | double d =>
    cases d with
    | nan => cases h
    | infinite negative =>
      have low : negative = true := by simpa [Value.atMostZero, Double.atMostZero] using h
      simp [ofSetting, low]
    | finite negative quanta =>
      have low : negative = true ∨ quanta = 0 := by
        simpa [Value.atMostZero, Double.atMostZero] using h
      simp [ofSetting, low]
  | absent | text _ | path _ | bytes _ | list _ => cases h

/-- Whatever happens to a world, timeouts that change included: once a launch has begun to wait for
a child that nobody signals, under a timeout that a double can hold, the instant of its call is
given in closed form, for every deadline that no exit and no closing of a pipe falls upon. A child
that is finished before the deadline is not reported as a timeout, and every other one is, with the
code of the first exit. If the launch was given no time at all, even a child that was finished at
once is reported as a timeout. Without a deadline the call is made when the child finishes, and
under a setting that is no span of time it is never made. -/
theorem timeout_closed_form {start v v' w : World} {i : Nat} {l₀ : Launch} {c₀ : Child}
    (new : start.runs = []) (before : Reaches (Step.Unsignalled i) start v)
    (embarks : Embarks v v' i l₀) (has : l₀.child = some c₀)
    (after : Reaches (Step.Unsignalled i) v' w) :
    let b := c₀.behaviour
    let own := b.ownExit v.now
    let timeout := (v.launcher l₀.launcher).timeout
    ∃ l, w.runs[i]? = some (.accepted l) ∧
      (∀ span, timeout.Held → timeout.lasting? = some span → b.Untied v.now (v.now + span) →
        ((b.finishFrom own).any (· < v.now + span) →
          l.CallsAt w (b.finishFrom own) ∧ ∀ call ∈ l.calls, ¬ call.2.TimedOut) ∧
        (¬ (b.finishFrom own).any (· < v.now + span) →
          l.CallsAt w (b.expiry (v.now + span) own) ∧
            ∀ call ∈ l.calls, l.TellsLate b v.now (v.now + span) call)) ∧
      (timeout.Held → timeout.atMostZero = .ok true → (∀ call ∈ l.calls, call.2.TimedOut) ∧
        (b.finishFrom own = some v.now → l.CallsAt w (some v.now))) ∧
      (Limit.ofSetting timeout = .unlimited →
        l.CallsAt w (b.finishFrom own) ∧ ∀ call ∈ l.calls, ¬ call.2.TimedOut) ∧
      (Limit.ofSetting timeout = .unusable → l.calls = []) ∧
      (w.Reckoned → ∀ n, ∃ s, w.sleep n = some s ∧ s.Settled) := by
  intro b own timeout
  obtain ⟨pid, b', l, has', there, scripted, current, heads⟩ :=
    Embarks.heads new before embarks after
  obtain rfl : c₀ = Child.start pid v.now b' := Option.some.inj (has.symm.trans has')
  have headed {limit : Limit} (is : Limit.ofSetting timeout = limit) :
      l.Heads (.armed (Child.start pid v.now b') v.now limit) := is ▸ heads
  refine ⟨l, there, ?_, ?_, ?_, ?_, ?_⟩
  · intro span held lasts untied
    obtain ⟨punctual, late⟩ := Prospect.armed_closes pid (held.deadline lasts v.now) untied
    constructor
    · intro inTime
      obtain ⟨f, finish, early⟩ := (Option.any_eq_true _ _).mp inTime
      have onTime : l.Heads (.call f (Child.start pid v.now b') false) :=
        punctual f finish (of_decide_eq_true early) ▸ heads
      rw [finish]
      exact onTime.punctual scripted current there
    · intro overdue
      exact heads.closes scripted current there (late overdue)
  · intro _ low
    have overdue : l.Heads (.expired (Child.start pid v.now b') v.now) :=
      headed (Limit.ofSetting_atMostZero low)
    refine ⟨fun call => overdue.timedOut scripted, fun atOnce => ?_⟩
    have finish := (Prospect.finish_start_eq pid v.now b').trans atOnce
    rw [Prospect.expired_finished finish] at overdue
    exact (overdue.callsAt scripted current there).1
  · intro unlimited
    have waits := headed unlimited
    have same : b.finishFrom own = b'.finishFrom (b'.ownExit v.now) := rfl
    rw [Prospect.armed_unlimited] at waits
    rw [same]
    cases finish : b'.finishFrom (b'.ownExit v.now) with
    | none =>
      rw [finish] at waits
      have silent := waits.silent scripted
      exact ⟨.of_silent silent, by simp [silent]⟩
    | some f =>
      rw [finish] at waits
      exact waits.punctual scripted current there
  · intro unusable
    exact (headed unusable).silent scripted
  · intro reckoned n
    obtain ⟨s, slept⟩ := Option.isSome_iff_exists.mp (World.sleep_isSome reckoned n)
    exact ⟨s, slept, (World.sleep_idle slept).settled⟩

/-- A child that exits when asked, and leaves a grandchild with its pipes: its call comes two
seconds after the deadline, with the code of that exit and a word in the log about the pipes. -/
theorem held_pipes_closed_form :
    let b : Behaviour := { exit := none, hold := some 9000, onTerminate := .exits 400 (-15) }
    let v := ((World.solo { timeout := .flag true }).launch (World.soloTarget (.starts b))
      (some .records)).world
    let deadline := v.now + Clock.second
    ∃ w l call, (v.step v.now 0).sleep 3500 = some w ∧ w.runs[0]? = some (.accepted l) ∧
      b.Untied v.now deadline ∧
      b.expiry deadline (b.ownExit v.now) = some (deadline + grace + grace) ∧
      l.calls = [call] ∧ call.1 = deadline + grace + grace ∧
      l.TellsLate b v.now deadline call := by
  intro b v deadline
  obtain ⟨command, prepared⟩ := World.solo_commandFor (.flag true) (some .prints) (.starts b)
  have started : ((World.solo { timeout := .flag true }).launch (World.soloTarget (.starts b))
      (some .records)).outcome = .ok (some 1000) := rfl
  obtain ⟨l₀, made, is⟩ := World.launch_started prepared rfl started
  have there : v.runs[0]? = some (.accepted l₀) := made
  have embarks : Embarks v (v.step v.now 0) 0 l₀ := by
    refine ⟨there, is.stage, ?_⟩
    have acts : v.step v.now 0 = v.acted v.now 0 l₀ := by
      rw [World.step_eq v.now there, is.stage]
    rw [acts]
    exact List.getElem?_set_self (List.getElem?_eq_some_iff.mp there).1
  have before : Reaches (Step.Unsignalled 0) (World.solo { timeout := .flag true }) v :=
    .of_move (.launch _ _)
  have untied : b.Untied v.now deadline := by decide +kernel
  have instant : b.expiry deadline (b.ownExit v.now) = some (deadline + grace + grace) := by
    decide +kernel
  have late : ¬ (b.finishFrom (b.ownExit v.now)).any (· < deadline) := by decide +kernel
  have returns : ((v.step v.now 0).sleep 3500).isSome := by decide +kernel
  obtain ⟨w, slept⟩ := Option.isSome_iff_exists.mp returns
  obtain ⟨after, now, settled⟩ := sleep_reaches slept
  have timeout : (v.launcher l₀.launcher).timeout = .flag true := by
    rw [is.launcher]
    rfl
  have held : (v.launcher l₀.launcher).timeout.Held := by
    rw [timeout]
    trivial
  have lasts : (v.launcher l₀.launcher).timeout.lasting? = some Clock.second := by
    rw [timeout]
    rfl
  obtain ⟨l, there', closed, -⟩ := timeout_closed_form rfl before embarks is.child after
  obtain ⟨callsAt, tells⟩ := (closed Clock.second held lasts untied).2 late
  have past : deadline + grace + grace ≤ w.now := by
    rw [now]
    decide +kernel
  obtain ⟨call, calls⟩ := List.exists_mem_of_ne_nil _ (callsAt.comes _ instant settled past)
  obtain ⟨once, then_⟩ := callsAt.only call calls
  have called : call.1 = deadline + grace + grace :=
    (Option.some.inj (instant.symm.trans then_)).symm
  exact ⟨w, l, call, slept, there', untied, instant, once, called, tells call calls⟩

/-- Under a number that no double can hold a child that never exits by itself is never reported, not
even after the instant at which the closed form has its call. -/
theorem huge_timeout_never_closes :
    let timeout : Value := .integer (10 ^ 400)
    let b : Behaviour := { exit := none }
    let deadline := 10 ^ 400 * Clock.second
    timeout.isNumber ∧ timeout.lasting? = some deadline ∧ b.Untied 0 deadline ∧
      ∃ w l t, (World.solo { timeout := timeout }).through
          [.run (World.soloTarget (.starts b)) (some .records), .sleep (10 ^ 403 + 3000)] = some w ∧
        b.expiry deadline (b.ownExit 0) = some t ∧ t ≤ w.now ∧
        w.runs[0]? = some (.accepted l) ∧ l.calls = [] ∧ l.next = none := by
  intro timeout b deadline
  have check : ((World.solo { timeout := timeout }).through
      [.run (World.soloTarget (.starts b)) (some .records), .sleep (10 ^ 403 + 3000)]).any
      fun w => (b.expiry deadline (b.ownExit 0)).any (· ≤ w.now) &&
        w.shows 0 fun l => l.calls.isEmpty && l.next.isNone := by decide +kernel
  obtain ⟨w, played, h⟩ := (Option.any_eq_true _ _).mp check
  simp only [Bool.and_eq_true, Option.any_eq_true, decide_eq_true_eq] at h
  obtain ⟨⟨t, closes, past⟩, shown⟩ := h
  obtain ⟨l, there, is⟩ := (w.shows_iff 0 _).mp shown
  simp only [Bool.and_eq_true, List.isEmpty_iff, Option.isNone_iff_eq_none] at is
  exact ⟨rfl, by decide +kernel, by decide +kernel, w, l, t, played, closes, past, there, is⟩

end JarLaunch
