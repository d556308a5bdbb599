import JarLaunch.Proofs.Completion

/-! How promptly a launch under a timeout calls its handler. The child is asked to stop at the
deadline and killed a second later, and after its exit the pipes get one more second to close. Once
the child has been killed, though, the launch waits until it is finished; so a grandchild that holds
the pipes of a child that had to be killed puts off the call for as long as it holds them. -/
namespace JarLaunch

namespace Launch

theorem sooner_le {a b : Option Instant} {e : Instant} (h : sooner a b = some e) :
    (∀ x, a = some x → e ≤ x) ∧ ∀ y, b = some y → e ≤ y := by
  cases a with
  | none =>
    cases b with
    | none => cases h
    | some y =>
      cases Option.some.inj h
      exact ⟨fun _ h => (nomatch h), fun y' h => Option.some.inj h ▸ Nat.le_refl _⟩
  | some x =>
    cases b with
    | none =>
      cases Option.some.inj h
      exact ⟨fun x' h => Option.some.inj h ▸ Nat.le_refl _, fun _ h => nomatch h⟩
    | some y =>
      cases Option.some.inj h
      exact ⟨fun x' h => Option.some.inj h ▸ Nat.min_le_left _ _,
        fun y' h => Option.some.inj h ▸ Nat.min_le_right _ _⟩

theorem sooner_isSome {a b : Option Instant} (h : a.isSome ∨ b.isSome) :
    ∃ e, sooner a b = some e := by
  cases a with
  | none =>
    cases b with
    | none => simp at h
    | some y => exact ⟨y, rfl⟩
  | some x =>
    cases b with
    | none => exact ⟨x, rfl⟩
    | some y => exact ⟨min x y, rfl⟩

end Launch

def Reaction.exitFrom (r : Reaction) (t : Instant) : Option Instant :=
  match r with
  | .exits delay _ => some (t + Clock.millis delay)
  | .ignores | .lost => none

namespace Child

theorem exitAt_leaves (c : Child) (t : Instant) (code : Int) :
    (c.exitAt t code).leaves = Launch.sooner c.leaves (some t) := by
  unfold exitAt leaves
  cases exit : c.exit with
  | none => rfl
  | some e =>
    dsimp only
    split
    · rename_i earlier
      simp [exit, Launch.sooner, Nat.min_eq_left earlier]
    · rename_i later
      simp [Launch.sooner, Nat.min_eq_right (Nat.le_of_not_le later)]

theorem signal?_leaves (c : Child) (reaction : Reaction) {now : Instant} (sent : reaction ≠ .lost)
    (running : ¬ c.exitedBy now) :
    ∃ c', c.signal? reaction now = some c' ∧ c'.behaviour = c.behaviour ∧
      c'.leaves = Launch.sooner c.leaves (reaction.exitFrom now) := by
  have unfinished : ¬ c.finishedBy now := fun finished => running (exitedBy_of_finishedBy finished)
  have there : ¬ (reaction = .lost ∨ c.finishedBy now) := not_or.mpr ⟨sent, unfinished⟩
  cases reaction with
  | exits delay code =>
    refine ⟨c.exitAt (now + Clock.millis delay) code, ?_, ?_, c.exitAt_leaves _ code⟩
    · rw [signal?, if_neg there, if_neg running]
    · unfold exitAt
      split
      · split <;> rfl
      · rfl
  | ignores =>
    refine ⟨c, ?_, rfl, ?_⟩
    · rw [signal?, if_neg there, if_neg running]
      exact fun _ _ h => nomatch h
    · cases h : c.leaves <;> simp [Reaction.exitFrom, Launch.sooner]
  | lost => exact (sent rfl).elim

end Child

def Fate.CalledBy (bound : Instant) : Fate → Prop
  | .call t _ => t ≤ bound
  | _ => False

/-- When a child exits that is asked to stop at the deadline and killed at the end of its grace, if
it would exit by itself at some instant or never. -/
def Behaviour.stopped (b : Behaviour) (own : Option Instant) (deadline : Instant) :
    Option Instant :=
  Launch.sooner (Launch.sooner own (b.onTerminate.exitFrom deadline))
    (b.onKill.exitFrom (deadline + Launch.grace))

/-- The pipes of a child that exits at an instant do not put off a call beyond a bound: the exit
comes before there is a need to kill, or the pipes close in time. -/
def Behaviour.Releases (b : Behaviour) (kill bound : Instant) (exit : Option Instant) : Prop :=
  ∃ e, exit = some e ∧ (e ≤ kill ∨ ∃ hold, b.hold = some hold ∧ e + Clock.millis hold ≤ bound)

namespace Launch

section
variable (l : Launch) (timeout : Value) {child : Child} {now bound : Instant}

theorem drainedFate_calledBy (child : Child) {limit : Instant} (soon : now ≤ bound)
    (inTime : limit ≤ bound) : (l.drainedFate timeout child now limit).CalledBy bound := by
  have least : child.finishOr limit ≤ limit := by
    unfold Child.finishOr
    split
    · exact Nat.le_refl _
    · exact Nat.min_le_right _ _
  exact Nat.max_le.mpr ⟨soon, Nat.le_trans least inTime⟩

theorem killedFate_calledBy {e : Instant} (leaves : child.leaves = some e) (later : now ≤ e) :
    (l.killedFate timeout child now).CalledBy bound ↔
      ∃ hold, child.behaviour.hold = some hold ∧ e + Clock.millis hold ≤ bound := by
  unfold killedFate
  rw [child.finish_eq, leaves, Option.bind_some]
  cases held : child.behaviour.hold with
  | none => simp [Fate.CalledBy]
  | some hold =>
    have finish : child.finish = some (e + Clock.millis hold) := by
      rw [child.finish_eq, leaves, Option.bind_some, held, Option.map_some]
    have wait : max now (e + Clock.millis hold) = e + Clock.millis hold :=
      Nat.max_eq_right (Nat.le_trans later (Nat.le_add_right _ _))
    simp only [Option.map_some, wait, drainedFate, Child.finishOr, finish,
      Nat.min_eq_left (Nat.le_add_right _ grace), Nat.max_self, Fate.CalledBy, Option.some.injEq,
      exists_eq_left']

theorem struckFate_calledBy {delay : Nat} {code : Int}
    (kills : child.behaviour.onKill = .exits delay code) (unfinished : ¬ child.finishedBy now)
    (inTime : now + grace ≤ bound) :
    (l.struckFate timeout child now).CalledBy bound ↔
      child.behaviour.Releases now bound
        (sooner child.leaves (some (now + Clock.millis delay))) := by
  have soon : now ≤ bound := Nat.le_trans (Nat.le_add_right _ _) inTime
  obtain ⟨e, first⟩ := sooner_isSome (a := child.leaves) (b := some (now + Clock.millis delay))
    (.inr rfl)
  -- a child that has exited is not waited for, whether it did so before the signal or at once;
  -- only one that is still to exit is waited for until its pipes close
  unfold struckFate
  by_cases exited : child.exitedBy now
  · have spared : child.kill? now = some child := by
      simp [Child.kill?, Child.signal?, kills, unfinished, exited]
    obtain ⟨x, leaves, le⟩ := (child.exitedBy_iff now).mp exited
    have early : e ≤ now := Nat.le_trans ((sooner_le first).1 x leaves) le
    simp only [spared, Option.getD_some, exited, if_true]
    exact iff_of_true (l.drainedFate_calledBy timeout child soon inTime) ⟨e, first, .inl early⟩
  · obtain ⟨killed, taken, same, leaves⟩ := child.signal?_leaves child.behaviour.onKill
      (by rw [kills]; exact fun h => nomatch h) exited
    rw [kills, Reaction.exitFrom, first] at leaves
    have taken' : child.kill? now = some killed := taken
    simp only [taken', Option.getD_some]
    by_cases early : e ≤ now
    · rw [if_pos ((killed.exitedBy_iff now).mpr ⟨e, leaves, early⟩)]
      exact iff_of_true (l.drainedFate_calledBy timeout killed soon inTime) ⟨e, first, .inl early⟩
    · have running : ¬ killed.exitedBy now := by
        rw [killed.exitedBy_iff, leaves]
        rintro ⟨_, h, le⟩
        exact early (Option.some.inj h ▸ le)
      rw [if_neg running, l.killedFate_calledBy timeout leaves (Nat.le_of_not_le early), same]
      unfold Behaviour.Releases
      simp [first, early]

theorem finishOr_cases (child : Child) (limit : Instant) :
    (∃ f, child.finish = some f ∧ f ≤ limit ∧ child.finishOr limit = f) ∨
      ¬ child.finishedBy limit ∧ child.finishOr limit = limit := by
  unfold Child.finishOr Child.finishedBy
  cases child.finish with
  | none => exact .inr ⟨by simp, rfl⟩
  | some f =>
    by_cases le : f ≤ limit
    · exact .inl ⟨f, rfl, le, Nat.min_eq_left le⟩
    · exact .inr ⟨by simpa using le, Nat.min_eq_right (Nat.le_of_not_le le)⟩

theorem terminatedFate_calledBy {limit : Instant} {delay : Nat} {code : Int}
    (kills : child.behaviour.onKill = .exits delay code) (later : now ≤ limit)
    (inTime : limit + grace ≤ bound) :
    (l.terminatedFate timeout child now limit).CalledBy bound ↔
      child.behaviour.Releases limit bound
        (sooner child.leaves (some (limit + Clock.millis delay))) := by
  unfold terminatedFate
  dsimp only
  rcases finishOr_cases child limit with ⟨f, finish, le, same⟩ | ⟨unfinished, same⟩ <;> rw [same]
  · have done : child.finishedBy (max now f) :=
      Child.finishedBy_of_finish finish (Nat.le_max_right _ _)
    have within : max now f + grace ≤ bound :=
      Nat.le_trans (Nat.add_le_add_right (Nat.max_le.mpr ⟨later, le⟩) _) inTime
    obtain ⟨x, leaves, le'⟩ := Child.leaves_le_finish finish
    obtain ⟨e, first⟩ := sooner_isSome (a := child.leaves) (b := some (limit + Clock.millis delay))
      (.inr rfl)
    have early : e ≤ limit := Nat.le_trans ((sooner_le first).1 x leaves) (Nat.le_trans le' le)
    rw [if_pos done]
    exact iff_of_true (l.drainedFate_calledBy timeout child
      (Nat.le_trans (Nat.le_add_right _ _) within) within) ⟨e, first, .inl early⟩
  · rw [Nat.max_eq_right later, if_neg unfinished]
    exact l.struckFate_calledBy timeout kills unfinished inTime

theorem stopped_le {delay : Nat} {code : Int}
    (kills : child.behaviour.onKill = .exits delay code) (deadline : Instant) :
    ∃ e, child.behaviour.stopped child.leaves deadline = some e ∧
      ∀ x, child.leaves = some x → e ≤ x := by
  obtain ⟨e, first⟩ := sooner_isSome
    (a := sooner child.leaves (child.behaviour.onTerminate.exitFrom deadline))
    (b := child.behaviour.onKill.exitFrom (deadline + grace)) (.inr (by rw [kills]; rfl))
  refine ⟨e, first, fun x leaves => ?_⟩
  obtain ⟨y, h⟩ := sooner_isSome (a := child.leaves)
    (b := child.behaviour.onTerminate.exitFrom deadline) (.inl (by rw [leaves]; rfl))
  exact Nat.le_trans ((sooner_le first).1 y h) ((sooner_le h).1 x leaves)

theorem expiredFate_calledBy {delay : Nat} {code : Int}
    (kills : child.behaviour.onKill = .exits delay code) (inTime : now + grace + grace ≤ bound) :
    (l.expiredFate timeout child now).CalledBy bound ↔
      child.behaviour.onTerminate = .lost ∨
        child.behaviour.Releases (now + grace) bound
          (child.behaviour.stopped child.leaves now) := by
  have within : now + grace ≤ bound := Nat.le_trans (Nat.le_add_right _ _) inTime
  have soon : now ≤ bound := Nat.le_trans (Nat.le_add_right _ _) within
  have drained (c : Child) := l.drainedFate_calledBy timeout c soon within
  obtain ⟨e, first, own⟩ := stopped_le kills now
  unfold expiredFate
  dsimp only
  by_cases lost : child.behaviour.onTerminate = .lost
  · have none : child.terminate? now = none := by simp [Child.terminate?, Child.signal?, lost]
    rw [none]
    exact iff_of_true (drained _) (.inl lost)
  by_cases exited : child.exitedBy now
  · have gone : (child.terminate? now).all (·.exitedBy now) := by
      unfold Child.terminate? Child.signal?
      split
      · rfl
      · exact exited
    obtain ⟨x, leaves, le⟩ := (child.exitedBy_iff now).mp exited
    have early : e ≤ now + grace :=
      Nat.le_trans (own x leaves) (Nat.le_trans le (Nat.le_add_right _ _))
    rw [if_pos gone]
    exact iff_of_true (drained _) (.inr ⟨e, first, .inl early⟩)
  · obtain ⟨asked, taken, same, leaves⟩ :=
      child.signal?_leaves child.behaviour.onTerminate lost exited
    have taken' : child.terminate? now = some asked := taken
    simp only [taken', Option.all_some, Option.getD_some]
    by_cases gone : asked.exitedBy now
    · obtain ⟨x, leaves', le⟩ := (asked.exitedBy_iff now).mp gone
      have early : e ≤ now + grace :=
        Nat.le_trans ((sooner_le first).1 x (leaves.symm.trans leaves'))
          (Nat.le_trans le (Nat.le_add_right _ _))
      rw [if_pos gone]
      exact iff_of_true (drained _) (.inr ⟨e, first, .inl early⟩)
    · rw [if_neg gone, l.terminatedFate_calledBy timeout (by rw [same, kills])
        (Nat.le_add_right _ _) inTime, same, leaves, Behaviour.stopped, kills]
      exact (or_iff_right lost).symm

theorem watchedFate_calledBy {deadline : Instant} {delay : Nat} {code : Int}
    (kills : child.behaviour.onKill = .exits delay code) (later : now ≤ deadline)
    (inTime : deadline + grace + grace ≤ bound) :
    (l.watchedFate timeout child now (some deadline)).CalledBy bound ↔
      child.behaviour.onTerminate = .lost ∨
        child.behaviour.Releases (deadline + grace) bound
          (child.behaviour.stopped child.leaves deadline) := by
  have within : deadline ≤ bound :=
    Nat.le_trans (Nat.le_add_right _ _) (Nat.le_trans (Nat.le_add_right _ _) inTime)
  unfold watchedFate
  rw [child.sooner_bound]
  dsimp only
  rcases finishOr_cases child deadline with ⟨f, finish, le, same⟩ | ⟨unfinished, same⟩ <;> rw [same]
  · have done : child.finishedBy (max now f) :=
      Child.finishedBy_of_finish finish (Nat.le_max_right _ _)
    obtain ⟨e, first, own⟩ := stopped_le kills deadline
    obtain ⟨x, leaves, le'⟩ := Child.leaves_le_finish finish
    have early : e ≤ deadline + grace := Nat.le_trans (own x leaves)
      (Nat.le_trans le' (Nat.le_trans le (Nat.le_add_right _ _)))
    rw [if_pos done]
    exact iff_of_true (Nat.le_trans (Nat.max_le.mpr ⟨later, le⟩) within)
      (.inr ⟨e, first, .inl early⟩)
  · rw [Nat.max_eq_right later, if_neg unfinished]
    exact l.expiredFate_calledBy timeout kills inTime

end

end Launch

/-- How long a finite number of seconds lasts; a negative one does not last at all. -/
def Value.lasting? : Value → Option Span
  | .flag b => some (if b then Clock.second else 0)
  | .integer n => some (n.toNat * Clock.second)
  | .double (.finite negative quanta) => some (if negative then 0 else quanta * 1000)
  | _ => none

theorem Limit.ofSetting_lasting {v : Value} {span : Span} (h : v.lasting? = some span) :
    ofSetting v = .within span ∨ (ofSetting v = .expired ∧ span = 0) ∨ ofSetting v = .unusable := by
  cases v with
  | flag b =>
    simp only [Value.lasting?, Option.some.injEq] at h
    subst span
    cases b <;> simp [ofSetting]
  | integer n =>
    simp only [Value.lasting?, Option.some.injEq] at h
    subst span
    by_cases le : n ≤ 0
    · exact .inr (.inl ⟨by simp [ofSetting, le], by simp [Int.toNat_of_nonpos le]⟩)
    · by_cases inRange : Double.nearest n.toNat 1 < Double.limit
      · exact .inl (by simp [ofSetting, le, inRange])
      · exact .inr (.inr (by simp [ofSetting, le, inRange]))
  | double d =>
    cases d with
    | nan => cases h
    | infinite _ => cases h
    | finite negative quanta =>
      simp only [Value.lasting?, Option.some.injEq] at h
      subst span
      by_cases none : negative ∨ quanta = 0
      · refine .inr (.inl ⟨by simp [ofSetting, none], ?_⟩)
        rcases none with negative | zero
        · simp [negative]
        · simp [zero]
      · refine .inl ?_
        have positive : ¬ negative := fun h => none (.inl h)
        rw [ofSetting, if_neg none, if_neg positive]
  | _ => cases h

def Behaviour.ownExit (b : Behaviour) (started : Instant) : Option Instant :=
  b.exit.map fun _ => started + Clock.millis b.lifetime

theorem Child.leaves_start (pid : Nat) (now : Instant) (b : Behaviour) :
    (start pid now b).leaves = b.ownExit now := by
  unfold start leaves Behaviour.ownExit
  cases b.exit <;> rfl

/-- The deadline of a launch that has begun to wait leads to a call by the bound exactly if the
child cannot be asked to stop or its pipes release it. -/
theorem Launch.freshFate_calledBy (l : Launch) {timeout : Value} {span : Span}
    (finite : timeout.lasting? = some span) (pid : Nat) (now : Instant) {b : Behaviour}
    {delay : Nat} {code : Int} (kills : b.onKill = .exits delay code) {bound : Instant}
    (inTime : now + span + grace + grace ≤ bound) :
    (l.freshFate timeout (Child.start pid now b) now).CalledBy bound ↔
      Limit.ofSetting timeout ≠ .unusable ∧
        (b.onTerminate = .lost ∨
          b.Releases (now + span + grace) bound (b.stopped (b.ownExit now) (now + span))) := by
  rw [← Child.leaves_start pid now b]
  unfold freshFate
  rcases Limit.ofSetting_lasting finite with limit | ⟨limit, rfl⟩ | limit <;> rw [limit]
  · exact (l.watchedFate_calledBy timeout kills (Nat.le_add_right _ _) inTime).trans
      (and_iff_right fun h => nomatch h).symm
  · exact (l.expiredFate_calledBy timeout kills inTime).trans
      (and_iff_right fun h => nomatch h).symm
  · exact iff_of_false id fun h => h.1 rfl

/-- The end of all the time that a launch allows for, if the child takes so many milliseconds to die
of being killed. -/
def Launch.latest (start : Instant) (span : Span) (d : Nat) : Instant :=
  start + span + grace + Clock.millis d + grace

def World.CalledBy (w : World) (i : Nat) (bound : Instant) : Prop :=
  ∃ l t c, w.runs[i]? = some (.accepted l) ∧ l.calls = [(t, c)] ∧ t ≤ bound

theorem Behaviour.releases_of_brief_hold {b : Behaviour} {own : Option Instant} {start : Instant}
    {span : Span} {delay d : Nat} {code : Int} (kills : b.onKill = .exits delay code)
    (soon : delay ≤ d) {hold : Nat} (held : b.hold = some hold)
    (brief : Clock.millis hold ≤ Launch.grace) :
    b.Releases (start + span + Launch.grace) (Launch.latest start span d)
      (b.stopped own (start + span)) := by
  obtain ⟨e, first⟩ := Launch.sooner_isSome
    (a := Launch.sooner own (b.onTerminate.exitFrom (start + span)))
    (b := b.onKill.exitFrom (start + span + Launch.grace)) (.inr (by rw [kills]; rfl))
  have killed : e ≤ start + span + Launch.grace + Clock.millis delay :=
    (Launch.sooner_le first).2 _ (by rw [kills]; rfl)
  have gone : e ≤ start + span + Launch.grace + Clock.millis d :=
    Nat.le_trans killed (Nat.add_le_add_left (Clock.millis_le_millis.mpr soon) _)
  exact ⟨e, first, .inr ⟨hold, held, Nat.add_le_add gone brief⟩⟩

theorem Behaviour.not_releases_of_endless_hold {b : Behaviour} {deadline bound : Instant}
    {delay : Nat} {code : Int} (ignores : b.onTerminate = .ignores)
    (kills : b.onKill = .exits delay code) (slow : 0 < delay) (endless : b.hold = none) :
    ¬ b.Releases (deadline + Launch.grace) bound (b.stopped none deadline) := by
  rintro ⟨e, exits, early | ⟨_, held, -⟩⟩
  · rw [stopped, ignores, kills] at exits
    cases Option.some.inj exits
    exact Nat.not_lt_of_le early (Nat.lt_add_of_pos_right (Nat.mul_pos slow Clock.millisecond_pos))
  · rw [endless] at held
    cases held

/-- A launch under a finite timeout, left alone, calls its handler by the end of the graces it
allows for exactly if the timeout is a span of time and the child cannot be asked to stop, or exits
before it is killed, or has its pipes closed by then. Nothing else puts the call off, so pipes that
are held for a second at most never do. -/
theorem called_by_bound_iff {u w : World} {target : Target} {handler : Option Handler}
    {command : List Value} {b : Behaviour} {pid : Nat}
    (prepared : u.commandFor target = .ok command) (system : target.spawn = .starts b)
    (started : (u.launch target handler).outcome = .ok (some pid)) {span : Span}
    (finite : (u.launcher target.launcher).timeout.lasting? = some span) {delay d : Nat}
    {code : Int} (kills : b.onKill = .exits delay code) (soon : delay ≤ d)
    (leftAlone : Reaches (Step.Spares u.runs.length target.launcher
      (u.launcher target.launcher).timeout) (u.launch target handler).world w) :
    let usable := Limit.ofSetting (u.launcher target.launcher).timeout ≠ .unusable
    let bound := Launch.latest u.now span d
    (∀ n v, w.sleep n = some v → bound ≤ v.now →
      (v.CalledBy u.runs.length bound ↔ usable ∧ (b.onTerminate = .lost ∨
        b.Releases (u.now + span + Launch.grace) bound
          (b.stopped (b.ownExit u.now) (u.now + span))))) ∧
    (∀ n v hold, w.sleep n = some v → bound ≤ v.now → usable → b.hold = some hold →
      Clock.millis hold ≤ Launch.grace → v.CalledBy u.runs.length bound) ∧
    (w.Reckoned → ∀ n, (w.sleep n).isSome) := by
  intro usable bound
  obtain ⟨l, there, is⟩ := World.launch_started prepared system started
  rw [← u.launch_launcher target handler target.launcher] at leftAlone
  have inTime : u.now + span + Launch.grace + Launch.grace ≤ bound :=
    Nat.add_le_add_right (Nat.le_add_right _ _) _
  have fated := l.freshFate_calledBy finite u.nextPid u.now kills inTime
  have decided (n : Nat) (v : World) (slept : w.sleep n = some v) (past : bound ≤ v.now) :
      v.CalledBy u.runs.length bound ↔ usable ∧ (b.onTerminate = .lost ∨
        b.Releases (u.now + span + Launch.grace) bound
          (b.stopped (b.ownExit u.now) (u.now + span))) := by
    obtain ⟨onward, -, settled⟩ := sleep_reaches slept
    obtain ⟨l', there', meets⟩ := is.meets there (leftAlone.trans onward)
    rw [u.launch_launcher] at meets
    rw [← fated]
    constructor
    · rintro ⟨_, t, c, again, calls, le⟩
      cases Option.some.inj (there'.symm.trans again)
      rw [(meets.eq_of_mem (calls ▸ List.mem_singleton_self (t, c))).1]
      exact le
    · intro inTime
      cases fate : l.freshFate (u.launcher target.launcher).timeout
          (Child.start u.nextPid u.now b) u.now with
      | never => exact (fate ▸ inTime : Fate.CalledBy bound .never).elim
      | dies => exact (fate ▸ inTime : Fate.CalledBy bound .dies).elim
      | call t c =>
        rw [fate] at meets inTime
        have idle := fun s due => settled.lt_next (u := s) there' due
        exact ⟨l', t, c, there', meets.calls_of_lt idle (Nat.le_trans inTime past), inTime⟩
  refine ⟨decided, fun n v hold slept past ok held brief => ?_,
    fun reckoned n => World.sleep_isSome reckoned n⟩
  exact (decided n v slept past).mpr
    ⟨ok, .inr (Behaviour.releases_of_brief_hold kills soon held brief)⟩

/-- A child that has to be killed, and leaves its pipes to a grandchild, is not reported by the end
of the graces although it exits a millisecond after it is killed. -/
theorem held_pipes_put_off_call :
    let start := World.solo { timeout := .integer 1 }
    let target := World.soloTarget
      (.starts { exit := none, hold := none, onTerminate := .ignores, onKill := .exits 1 (-9) })
    ∃ v, (start.launch target (some .records)).world.sleep 6000 = some v ∧
      Launch.latest start.now (1 * Clock.second) 1 ≤ v.now ∧
      ¬ v.CalledBy 0 (Launch.latest start.now (1 * Clock.second) 1) := by
  intro start target
  obtain ⟨command, prepared⟩ := World.solo_commandFor (.integer 1) (some .prints)
    (.starts { exit := none, hold := none, onTerminate := .ignores, onKill := .exits 1 (-9) })
  have started : (start.launch target (some .records)).outcome = .ok (some 1000) := rfl
  have finite : (start.launcher target.launcher).timeout.lasting? = some (1 * Clock.second) :=
    congrArg (fun n => some (n * Clock.second)) (by decide : Int.toNat 1 = 1)
  obtain ⟨decided, -, returns⟩ := called_by_bound_iff prepared rfl started finite rfl
    (Nat.le_refl 1) .refl
  obtain ⟨v, slept⟩ := Option.isSome_iff_exists.mp (returns (World.solo_reckoned _ _) 6000)
  have past : Launch.latest start.now (1 * Clock.second) 1 ≤ v.now := by
    rw [sleep_now slept, World.launch_now]
    decide +kernel
  refine ⟨v, slept, past, fun called => ?_⟩
  obtain ⟨-, lost | releases⟩ := (decided 6000 v slept past).mp called
  · cases lost
  · exact Behaviour.not_releases_of_endless_hold rfl rfl (by decide) rfl releases

end JarLaunch
