import JarLaunch.Proofs.Effort

/-! Launches that differ in the number of their child at most. The number is told to the log and to
nobody else, so such launches do the same things at the same instants. -/
namespace JarLaunch

namespace Child

def unnumbered (c : Child) : Child := { c with pid := 0 }

@[simp] theorem unnumbered_unnumbered (c : Child) : c.unnumbered.unnumbered = c.unnumbered := rfl

@[simp] theorem exitedBy_unnumbered (c : Child) (now : Instant) :
    c.unnumbered.exitedBy now = c.exitedBy now := rfl

@[simp] theorem finishedBy_unnumbered (c : Child) (now : Instant) :
    c.unnumbered.finishedBy now = c.finishedBy now := rfl

theorem exitAt_unnumbered (c : Child) (t : Instant) (code : Int) :
    c.unnumbered.exitAt t code = (c.exitAt t code).unnumbered := by
  have exit : c.unnumbered.exit = c.exit := rfl
  unfold exitAt
  rw [exit]
  cases c.exit with
  | none => rfl
  | some e =>
    dsimp only
    split <;> rfl

theorem signal?_unnumbered (c : Child) (reaction : Reaction) (now : Instant) :
    c.unnumbered.signal? reaction now = (c.signal? reaction now).map unnumbered := by
  unfold signal?
  rw [finishedBy_unnumbered, exitedBy_unnumbered]
  split
  · rfl
  · split
    · rfl
    · cases reaction with
      | exits delay code => exact congrArg some (c.exitAt_unnumbered _ code)
      | ignores => rfl
      | lost => rfl

theorem terminate?_unnumbered (c : Child) (now : Instant) :
    c.unnumbered.terminate? now = (c.terminate? now).map unnumbered :=
  c.signal?_unnumbered _ now

theorem kill?_unnumbered (c : Child) (now : Instant) :
    c.unnumbered.kill? now = (c.kill? now).map unnumbered :=
  c.signal?_unnumbered _ now

end Child

namespace Launch

/-- A launch without the number of its child, and without the log, which names it. -/
def anonymous (l : Launch) : Launch :=
  { l with child := l.child.map Child.unnumbered, trace := l.trace.filter (!·.isLog) }

section
variable (l : Launch) (now : Instant) (child : Child) (timeout : Value)

@[simp] theorem anonymous_stage : l.anonymous.stage = l.stage := rfl
@[simp] theorem anonymous_child : l.anonymous.child = l.child.map Child.unnumbered := rfl
@[simp] theorem anonymous_reads : l.anonymous.reads = l.reads := rfl

theorem next_anonymous : l.anonymous.next = l.next := by
  have finish : (l.child.map Child.unnumbered).bind Child.finish = l.child.bind Child.finish := by
    cases l.child <;> rfl
  simp only [next, awaited, anonymous, Reading.doneAt_eq, finish]

theorem awake_anonymous : l.anonymous.awake now = (l.awake now).anonymous := by
  have reads : ((l.child.map Child.unnumbered).map (l.reads.advance · now)).getD l.reads =
      (l.child.map (l.reads.advance · now)).getD l.reads := by cases l.child <;> rfl
  simp only [awake, anonymous, reads]

theorem printing_filter (p : Printout) :
    ((printing p).map (⟨now, ·⟩ : Event → Entry)).filter (!·.isLog) =
      (printing p).map (⟨now, ·⟩) := by
  rw [List.filter_eq_self]
  intro e he
  obtain ⟨x, hx, rfl⟩ := List.mem_map.mp he
  rcases List.mem_append.mp hx with hx | hx <;> split at hx <;> simp at hx <;> subst hx <;> rfl

theorem deliver_anonymous (c : Completion) :
    (l.deliver now c).anonymous = l.anonymous.deliver now c := by
  cases handled : l.handler with
  | none => simp [deliver, anonymous, handled, note, goTo, Entry.isLog]
  | some h =>
    cases h with
    | prints =>
      simp only [deliver, anonymous, handled, noteAll, goTo, List.filter_append, printing_filter]
    | _ => simp [deliver, anonymous, handled, note, goTo, Entry.isLog]

theorem anonymous_anonymous : l.anonymous.anonymous = l.anonymous := by
  have again : (l.child.map Child.unnumbered).map Child.unnumbered =
      l.child.map Child.unnumbered := by cases l.child <;> rfl
  simp only [anonymous, again, List.filter_filter, Bool.and_self]

theorem note_log_anonymous (level : Level) (text : Text) :
    (l.note now (.log level text)).anonymous = l.anonymous := by
  simp [note, anonymous, Entry.isLog]

theorem conclude_anonymous (failure : Option Failure) :
    (l.conclude now child failure).anonymous =
      (l.anonymous.conclude now child.unnumbered failure).anonymous := by
  simp only [conclude, deliver_anonymous, anonymous_reads]
  cases failure with
  | none => simp only [exitedCleanly, note_log_anonymous, anonymous_anonymous]
  | some f => simp only [note_log_anonymous, anonymous_anonymous]

theorem expire_anonymous :
    (l.expire now child timeout).anonymous =
      (l.anonymous.expire now child.unnumbered timeout).anonymous := by
  rw [expire_eq, expire_eq, child.terminate?_unnumbered]
  cases child.terminate? now with
  | none => simp [anonymous, stillRunning, Entry.isLog]
  | some c => by_cases gone : c.exitedBy now <;> simp [anonymous, stillRunning, Entry.isLog, gone]

theorem strike_anonymous :
    (l.strike now child).anonymous = (l.anonymous.strike now child.unnumbered).anonymous := by
  rw [strike_eq, strike_eq, child.kill?_unnumbered]
  cases child.kill? now with
  | none => by_cases gone : child.exitedBy now <;> simp [anonymous, gone]
  | some c => by_cases gone : c.exitedBy now <;> simp [anonymous, gone]

theorem goTo_anonymous (stage : Stage) :
    (l.goTo stage).anonymous = (l.anonymous.goTo stage).anonymous :=
  (l.goTo stage).anonymous_anonymous.symm

theorem embark_anonymous :
    (l.embark now child timeout).anonymous =
      (l.anonymous.embark now child.unnumbered timeout).anonymous := by
  unfold embark
  split
  · exact l.goTo_anonymous _
  · exact l.goTo_anonymous _
  · exact l.expire_anonymous now child timeout
  · exact l.goTo_anonymous _

theorem actWith_anonymous :
    (l.actWith now timeout child).anonymous =
      (l.anonymous.actWith now timeout child.unnumbered).anonymous := by
  unfold actWith
  rw [anonymous_stage, anonymous_reads, Child.finishedBy_unnumbered]
  split
  · exact (l.startReading now child).embark_anonymous now child timeout
  · split
    · exact l.conclude_anonymous now child _
    · exact l.expire_anonymous now child timeout
  · split
    · exact l.goTo_anonymous _
    · exact l.strike_anonymous now child
  · exact l.goTo_anonymous _
  · split
    · exact l.conclude_anonymous now child _
    · have stopped : l.anonymous.stopReading = l.stopReading.anonymous := rfl
      rw [giveUp, giveUp, conclude_anonymous, conclude_anonymous (l.anonymous.stopReading.note now _)]
      simp only [pipesOpen, note_log_anonymous, stopped, anonymous_anonymous,
        Child.unnumbered_unnumbered]
      rfl
  · exact l.anonymous_anonymous.symm

theorem act_anonymous :
    (l.act now timeout).anonymous = (l.anonymous.act now timeout).anonymous := by
  have here := l.awake_anonymous now
  cases stage : l.stage with
  | unstarted failure =>
    have acts (m : Launch) (is : m.stage = .unstarted failure) : m.act now timeout =
        (m.awake now).deliver now ⟨some failure, [], []⟩ := by simp [act, is]
    rw [acts l stage, acts l.anonymous stage, deliver_anonymous, deliver_anonymous, here,
      anonymous_anonymous]
  | dozing bound c fault =>
    have acts (m : Launch) (is : m.stage = .dozing bound c fault) : m.act now timeout =
        (((m.awake now).note now (.call m.recipient c)).noteAll now
          (fault.toList.map .raised)).goTo .ended := by simp [act, is]
    rw [acts l stage, acts l.anonymous stage, here]
    cases fault <;> simp [anonymous, note, noteAll, goTo, Entry.isLog, Function.comp_def]
  | lingering _ | asking _ _ =>
    have acts : l.anonymous.act now timeout = (l.act now timeout).anonymous := by
      simp only [act, here, anonymous_stage, awake_stage, stage]
      rfl
    rw [acts, anonymous_anonymous]
  | fresh | watching _ | terminating _ | killing | draining _ | ended =>
    cases has : l.child with
    | none =>
      have acts : l.anonymous.act now timeout = (l.act now timeout).anonymous := by
        simp only [act, here, anonymous_stage, anonymous_child, awake_stage, awake_child, stage, has,
          Option.map_none]
      rw [acts, anonymous_anonymous]
    | some child =>
      have acts : l.act now timeout = (l.awake now).actWith now timeout child := by
        simp only [act, awake_stage, awake_child, stage, has]
      have acts' : l.anonymous.act now timeout =
          (l.awake now).anonymous.actWith now timeout child.unnumbered := by
        simp only [act, here, anonymous_stage, anonymous_child, awake_stage, awake_child, stage, has,
          Option.map_some]
      rw [acts, acts', actWith_anonymous]

end

inductive Settles (timeout : Value) (within : Instant → Prop) : Launch → Launch → Prop where
  | idle {l : Launch} (outside : ∀ t, l.next = some t → ¬ within t) : Settles timeout within l l
  | act {l l' : Launch} {t : Instant} (due : l.next = some t) (inside : within t)
      (rest : Settles timeout within (l.act t timeout) l') : Settles timeout within l l'

section
variable {timeout : Value} {within : Instant → Prop} {l l' m m' : Launch}

theorem next_alike (alike : l.anonymous = m.anonymous) : l.next = m.next := by
  rw [← l.next_anonymous, alike, m.next_anonymous]

theorem launcher_alike (alike : l.anonymous = m.anonymous) : l.launcher = m.launcher := by
  have same := congrArg launcher alike
  exact same

theorem stage_alike (alike : l.anonymous = m.anonymous) : l.stage = m.stage := by
  have same := congrArg stage alike
  exact same

theorem act_alike (alike : l.anonymous = m.anonymous) (t : Instant) (timeout : Value) :
    (l.act t timeout).anonymous = (m.act t timeout).anonymous := by
  rw [act_anonymous, alike, ← act_anonymous]

/-- Launches that are alike settle alike, and if one settles so does the other. -/
theorem Settles.alike (settles : l.Settles timeout within l') (alike : l.anonymous = m.anonymous) :
    ∃ m', m.Settles timeout within m' ∧ l'.anonymous = m'.anonymous := by
  induction settles generalizing m with
  | idle outside =>
    rw [next_alike alike] at outside
    exact ⟨m, .idle outside, alike⟩
  | act due inside _ ih =>
    obtain ⟨m', rest, same⟩ := ih (act_alike alike _ timeout)
    rw [next_alike alike] at due
    exact ⟨m', .act due inside rest, same⟩

theorem Settles.unique (first : l.Settles timeout within l')
    (second : l.Settles timeout within m') : l' = m' := by
  induction first with
  | idle outside =>
    cases second with
    | idle _ => rfl
    | act due inside _ => exact (outside _ due inside).elim
  | act due inside _ ih =>
    cases second with
    | idle outside => exact (outside _ due inside).elim
    | act due' _ rest =>
      cases Option.some.inj (due.symm.trans due')
      exact ih rest

end

end Launch

end JarLaunch
