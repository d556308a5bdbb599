import JarLaunch.Proofs.Timeline

/-! Signals to a child. A launch begins to wait for its child once, with the timeout that is in
force at that moment. From then on what it has sent follows from its stage: nothing before the
deadline, one request to stop after it, and one kill when a second has gone by in vain. A child that
could be asked to stop has exited when the timeout is reported. -/
namespace JarLaunch

def Limit.deadline (begun : Instant) : Limit → Option Instant
  | .within span => some (begun + span)
  | .expired => some begun
  | .unlimited | .unusable => none

def Failure.isTimeout (f : Failure) : Bool :=
  match f.reason with
  | .timedOut _ _ => true
  | _ => false

theorem Failure.isTimeout_ofExit {command : List Value} {line : Text} {code : Int} {f : Failure}
    (failure : ofExit command line code = some f) : f.isTimeout = false := by
  unfold ofExit at failure
  split at failure
  · cases failure
  · split at failure <;> cases failure <;> rfl

namespace Child

variable {c : Child} {now t : Instant}

theorem exitedBy_iff_returncode : c.exitedBy now ↔ ∃ code, c.returncode now = some code := by
  constructor
  · intro exited
    obtain ⟨e, exit, past⟩ := (Option.any_eq_true _ _).mp exited
    have past' := of_decide_eq_true past
    exact ⟨e.2, by simp [returncode, exit, Option.filter, past']⟩
  · rintro ⟨code, exited⟩
    obtain ⟨e, kept, -⟩ := Option.map_eq_some_iff.mp exited
    obtain ⟨exit, past⟩ := Option.filter_eq_some_iff.mp kept
    exact (Option.any_eq_true _ _).mpr ⟨e, exit, past⟩

theorem returncode_mono {code : Int} (exited : c.returncode now = some code) (later : now ≤ t) :
    c.returncode t = some code := by
  obtain ⟨e, kept, rfl⟩ := Option.map_eq_some_iff.mp exited
  obtain ⟨exit, past⟩ := Option.filter_eq_some_iff.mp kept
  have past' : e.1 ≤ t := Nat.le_trans (of_decide_eq_true past) later
  simp [returncode, exit, Option.filter, past']

theorem Takes.returncode {c' : Child} (takes : c.Takes now c') {code : Int}
    (exited : c.returncode now = some code) : c'.returncode now = some code := by
  rw [takes.eq_of_exited (exitedBy_iff_returncode.mpr ⟨code, exited⟩)]
  exact exited

theorem lt_of_unfinished (unfinished : ¬ c.finishedBy t) {f : Instant}
    (finish : c.finish = some f) : t < f := by
  apply Nat.lt_of_not_ge
  intro past
  exact unfinished (finishedBy_of_finish finish past)

end Child

namespace Launch

/-- A child may be asked to stop: the deadline has passed, and a child that was given any time at
all has not finished by then. -/
structure Overdue (limit : Limit) (begun : Instant) (finish : Option Instant) (s : Instant) :
    Prop where
  due : ∃ d, limit.deadline begun = some d ∧ d ≤ s
  unfinished : ∀ span f, limit = .within span → finish = some f → s ≤ f

inductive Sends (limit : Limit) (begun now : Instant) (finish : Option Instant) :
    List Sent → Prop where
  | nothing : Sends limit begun now finish []
  | asked {s : Instant} {taken : Bool} (overdue : Overdue limit begun finish s) (past : s ≤ now) :
      Sends limit begun now finish [⟨s, .terminate, taken⟩]
  | killed {s k : Instant} {taken : Bool} (overdue : Overdue limit begun finish s)
      (patient : s + grace ≤ k) (past : k ≤ now) (unfinished : ∀ f, finish = some f → k ≤ f) :
      Sends limit begun now finish [⟨s, .terminate, true⟩, ⟨k, .kill, taken⟩]

def Stopped (now : Instant) (c : Child) (sent : List Sent) : Prop :=
  ∃ (s : Instant) (taken : Bool), ⟨s, .terminate, taken⟩ ∈ sent ∧ (taken → c.exitedBy now)

def Honest (now : Instant) (c : Child) (sent : List Sent) (f : Failure) : Prop :=
  ∃ (s : Instant) (taken : Bool), ⟨s, .terminate, taken⟩ ∈ sent ∧
    (taken → ∃ code, c.returncode now = some code ∧ f.returncode = some code)

def Standing (limit : Limit) (begun now : Instant) (c : Child) (l : Launch) : Prop :=
  match l.stage with
  | .unstarted _ | .fresh => False
  | .watching deadline => deadline = limit.deadline begun ∧ l.sent = [] ∧ l.calls = []
  | .terminating bound => (∃ s, bound = s + grace ∧ l.sent = [⟨s, .terminate, true⟩]) ∧ l.calls = []
  | .killing => (∃ s, ⟨s, .terminate, true⟩ ∈ l.sent) ∧ l.calls = []
  | .draining _ => Stopped now c l.sent ∧ l.calls = []
  | .dozing _ _ _ | .lingering _ | .asking _ _ | .ended =>
    ∀ call ∈ l.calls, ∀ f, call.2.failure = some f → f.isTimeout → Honest now c l.sent f

structure Guarded (limit : Limit) (begun now : Instant) (c : Child) (l : Launch) : Prop where
  has : l.child = some c
  sends : Sends limit begun now c.finish l.sent
  standing : Standing limit begun now c l

section
variable {limit : Limit} {begun now t : Instant} {c c' : Child} {l : Launch} {timeout : Value}

theorem Overdue.moves {finish finish' : Option Instant} {s : Instant}
    (h : Overdue limit begun finish s) (past : s ≤ now)
    (moves : ∀ f, finish' = some f → finish = some f ∨ now ≤ f) :
    Overdue limit begun finish' s := by
  refine ⟨h.due, ?_⟩
  intro span f within finishes
  rcases moves f finishes with same | later
  · exact h.unfinished span f within same
  · exact Nat.le_trans past later

theorem Sends.onward {finish finish' : Option Instant} {sent : List Sent}
    (h : Sends limit begun now finish sent) (later : now ≤ t)
    (moves : ∀ f, finish' = some f → finish = some f ∨ now ≤ f) :
    Sends limit begun t finish' sent := by
  cases h with
  | nothing => exact .nothing
  | asked overdue past => exact .asked (overdue.moves past moves) (Nat.le_trans past later)
  | killed overdue patient past unfinished =>
    have asked := Nat.le_trans (Nat.le_add_right _ _) (Nat.le_trans patient past)
    refine .killed (overdue.moves asked moves) patient (Nat.le_trans past later) ?_
    intro f finishes
    rcases moves f finishes with same | ahead
    · exact unfinished f same
    · exact Nat.le_trans past ahead

theorem Standing.onward {l' : Launch} (h : Standing limit begun now c l)
    (stage : l'.stage = l.stage) (sent : l'.sent = l.sent) (calls : l'.calls = l.calls)
    (lasts : ∀ code, c.returncode now = some code → c'.returncode t = some code) :
    Standing limit begun t c' l' := by
  unfold Standing at h ⊢
  rw [stage, sent, calls]
  split at h
  · exact h
  · exact h
  · exact h
  · exact h
  · exact h
  · obtain ⟨⟨s, taken, asked, exited⟩, none⟩ := h
    refine ⟨⟨s, taken, asked, fun took => ?_⟩, none⟩
    obtain ⟨code, left⟩ := Child.exitedBy_iff_returncode.mp (exited took)
    exact Child.exitedBy_iff_returncode.mpr ⟨code, lasts code left⟩
  all_goals
    intro call member f failure timedOut
    obtain ⟨s, taken, asked, exited⟩ := h call member f failure timedOut
    refine ⟨s, taken, asked, fun took => ?_⟩
    obtain ⟨code, left, reported⟩ := exited took
    exact ⟨code, lasts code left, reported⟩

theorem Guarded.wait (h : l.Guarded limit begun now c) (later : now ≤ t) :
    l.Guarded limit begun t c := by
  refine ⟨h.has, h.sends.onward later fun _ => .inl, ?_⟩
  exact h.standing.onward rfl rfl rfl fun _ left => Child.returncode_mono left later

theorem Guarded.signalled (h : l.Guarded limit begun now c) (takes : c.Takes now c') :
    ({ l with child := some c' } : Launch).Guarded limit begun now c' := by
  refine ⟨rfl, h.sends.onward (Nat.le_refl _) fun _ => takes.finish, ?_⟩
  exact h.standing.onward rfl rfl rfl fun _ => takes.returncode

theorem deliver_child_sent (l : Launch) (now : Instant) (c : Completion) :
    (l.deliver now c).child = l.child ∧ (l.deliver now c).sent = l.sent := by
  unfold deliver
  split <;> exact ⟨rfl, rfl⟩

/-- All that the actions of a launch do to its child is to send it signals. -/
theorem actWith_takes (has : l.child = some c) :
    ∃ c', (l.actWith t timeout c).child = some c' ∧ c.Takes t c' := by
  have expires (l : Launch) : ∃ c', (l.expire t c timeout).child = some c' ∧ c.Takes t c' := by
    rw [expire_eq]
    exact ⟨_, rfl, c.terminate?_takes t⟩
  have concludes (l : Launch) (has : l.child = some c) (failure : Option Failure) :
      ∃ c', (l.conclude t c failure).child = some c' ∧ c.Takes t c' :=
    ⟨c, (deliver_child_sent _ t _).1.trans has, .unmoved⟩
  unfold actWith
  split
  · unfold embark
    split
    · exact ⟨c, has, .unmoved⟩
    · exact ⟨c, has, .unmoved⟩
    · exact expires _
    · exact ⟨c, has, .unmoved⟩
  · split
    · exact concludes l has _
    · exact expires l
  · split
    · exact ⟨c, has, .unmoved⟩
    · rw [strike_eq]
      exact ⟨_, rfl, c.kill?_takes t⟩
  · exact ⟨c, has, .unmoved⟩
  · split
    · exact concludes l has _
    · exact concludes (l.stopReading.note t (pipesOpen c)) has _
  · exact ⟨c, has, .unmoved⟩

theorem act_takes (has : l.child = some c) (t : Instant) (timeout : Value) :
    ∃ c', (l.act t timeout).child = some c' ∧ c.Takes t c' := by
  have delivers (completion : Completion) :
      ((l.awake t).deliver t completion).child = some c := (deliver_child_sent _ t _).1.trans has
  cases stage : l.stage with
  | unstarted f =>
    refine ⟨c, ?_, .unmoved⟩
    simp only [act, awake_stage, stage]
    exact delivers _
  | dozing _ _ _ | lingering _ | asking _ _ =>
    refine ⟨c, ?_, .unmoved⟩
    simp only [act, awake_stage, stage]
    exact has
  | fresh | watching _ | terminating _ | killing | draining _ | ended =>
    simp only [act, awake_stage, awake_child, stage, has]
    exact actWith_takes (l := l.awake t) has

theorem Standing.of_closed (closed : l.stage.isOpen = false)
    (honest : ∀ call ∈ l.calls, ∀ f, call.2.failure = some f → f.isTimeout →
      Honest now c l.sent f) : Standing limit begun now c l := by
  unfold Standing
  cases stage : l.stage with
  | dozing _ _ _ | lingering _ | asking _ _ | ended => exact honest
  | unstarted _ | fresh | watching _ | terminating _ | killing | draining _ =>
    simp [stage, Stage.isOpen] at closed

theorem Standing.honest (h : Standing limit begun now c l) (closed : l.stage.isOpen = false) :
    ∀ call ∈ l.calls, ∀ f, call.2.failure = some f → f.isTimeout → Honest now c l.sent f := by
  unfold Standing at h
  cases stage : l.stage with
  | dozing _ _ _ | lingering _ | asking _ _ | ended => simpa only [stage] using h
  | unstarted _ | fresh | watching _ | terminating _ | killing | draining _ =>
    simp [stage, Stage.isOpen] at closed

theorem conclude_guarded {failure : Option Failure} (has : l.child = some c)
    (sends : Sends limit begun t c.finish l.sent) (calls : l.calls = [])
    (honest : ∀ f, failure = some f → f.isTimeout → Honest t c l.sent f) :
    (l.conclude t c failure).Guarded limit begun t c := by
  obtain ⟨called, closed⟩ := l.conclude_buffers t c failure
  obtain ⟨child, sent⟩ : (l.conclude t c failure).child = l.child ∧
      (l.conclude t c failure).sent = l.sent := deliver_child_sent _ t _
  refine ⟨child.trans has, sent ▸ sends, .of_closed closed ?_⟩
  rw [called, calls, List.nil_append, sent]
  intro call member f is timedOut
  cases List.mem_singleton.mp member
  exact honest f is timedOut

theorem expire_guarded (sent : l.sent = []) (calls : l.calls = [])
    (due : ∃ d, limit.deadline begun = some d ∧ d ≤ t)
    (unfinished : ∀ span f, limit = .within span → c.finish = some f → t ≤ f) :
    (l.expire t c timeout).Guarded limit begun t ((c.terminate? t).getD c) := by
  have takes := c.terminate?_takes t
  have overdue : Overdue limit begun c.finish t := ⟨due, unfinished⟩
  rw [expire_eq]
  refine ⟨rfl, ?_, ?_⟩
  · simp only [sent, List.nil_append]
    exact .asked (overdue.moves (Nat.le_refl _) fun _ => takes.finish) (Nat.le_refl _)
  · cases asked : c.terminate? t with
    | none => exact ⟨⟨t, false, by simp [sent], fun h => nomatch h⟩, calls⟩
    | some c' =>
      by_cases exited : c'.exitedBy t
      · simp only [Standing, Option.all_some, exited, if_true, sent]
        exact ⟨⟨t, true, List.mem_singleton.mpr rfl, fun _ => exited⟩, calls⟩
      · simp only [Standing, Option.all_some, exited, Bool.false_eq_true, if_false, sent]
        exact ⟨⟨t, rfl, rfl⟩, calls⟩

theorem strike_guarded {bound : Instant} (h : l.Guarded limit begun t c)
    (stage : l.stage = .terminating bound) (late : bound ≤ t) (unfinished : ¬ c.finishedBy t) :
    (l.strike t c).Guarded limit begun t ((c.kill? t).getD c) := by
  have takes := c.kill?_takes t
  have standing := h.standing
  simp only [Standing, stage] at standing
  obtain ⟨⟨s, bounded, sent⟩, calls⟩ := standing
  have patient : s + grace ≤ t := bounded ▸ late
  have sends := h.sends
  rw [sent] at sends
  have overdue : Overdue limit begun c.finish s ∧ s ≤ t := by
    cases sends with
    | asked overdue past => exact ⟨overdue, past⟩
  rw [strike_eq]
  refine ⟨rfl, ?_, ?_⟩
  · simp only [sent, List.cons_append, List.nil_append]
    refine .killed (overdue.1.moves overdue.2 fun _ => takes.finish) patient (Nat.le_refl _) ?_
    intro f finishes
    rcases takes.finish finishes with same | ahead
    · exact Nat.le_of_lt (Child.lt_of_unfinished unfinished same)
    · exact ahead
  · by_cases exited : ((c.kill? t).getD c).exitedBy t
    · simp only [Standing, exited, if_true, sent]
      exact ⟨⟨s, true, List.mem_cons_self, fun _ => exited⟩, calls⟩
    · simp only [Standing, exited, Bool.false_eq_true, if_false, sent]
      exact ⟨⟨s, List.mem_cons_self⟩, calls⟩

theorem Stopped.honest (h : Stopped t c l.sent) (command : List Value) (line : Text)
    (timeout : Value) :
    Honest t c l.sent (Failure.ofTimeout command line timeout (c.returncode t)) := by
  obtain ⟨s, taken, asked, exited⟩ := h
  refine ⟨s, taken, asked, fun took => ?_⟩
  obtain ⟨code, left⟩ := Child.exitedBy_iff_returncode.mp (exited took)
  exact ⟨code, left, left⟩

theorem Guarded.act (h : l.Guarded limit begun t c) (current : l.Current)
    (due : l.next = some t) :
    ∃ c', (l.act t timeout).Guarded limit begun t c' := by
  have has := h.has
  have sends := h.sends
  have standing := h.standing
  have action : l.Action t timeout (l.act t timeout) := act_action current due
  generalize l.act t timeout = l' at action ⊢
  cases action with
  | tell stage | watch stage _ _ | die stage _ _ => simp [Standing, stage] at standing
  | expire there reason =>
    cases Option.some.inj (has.symm.trans there)
    rcases reason with ⟨stage, -⟩ | ⟨deadline, stage, late, unfinished⟩
    · simp [Standing, stage] at standing
    · simp only [Standing, stage] at standing
      obtain ⟨armed, sent, calls⟩ := standing
      refine ⟨_, expire_guarded sent calls ⟨deadline, armed.symm, late⟩ ?_⟩
      intro _ f _ finishes
      exact Nat.le_of_lt (Child.lt_of_unfinished unfinished finishes)
  | complete stage there finished =>
    cases Option.some.inj (has.symm.trans there)
    simp only [Standing, stage] at standing
    refine ⟨c, conclude_guarded has sends standing.2.2 ?_⟩
    intro f failure timedOut
    rw [Failure.isTimeout_ofExit failure] at timedOut
    cases timedOut
  | stop stage there finished =>
    cases Option.some.inj (has.symm.trans there)
    simp only [Standing, stage] at standing
    obtain ⟨⟨s, -, sent⟩, calls⟩ := standing
    refine ⟨c, has, sends, ⟨s, true, ?_, fun _ => Child.exitedBy_of_finishedBy finished⟩, calls⟩
    exact sent ▸ List.mem_singleton_self _
  | @strike _ r _ stage there late unfinished =>
    cases Option.some.inj (has.symm.trans there)
    have here : (l.having t r).Guarded limit begun t c := ⟨has, sends, standing⟩
    exact ⟨_, strike_guarded here stage late unfinished⟩
  | outlive stage there finished =>
    cases Option.some.inj (has.symm.trans there)
    simp only [Standing, stage] at standing
    obtain ⟨⟨s, asked⟩, calls⟩ := standing
    exact ⟨c, has, sends, ⟨s, true, asked, fun _ => Child.exitedBy_of_finishedBy finished⟩, calls⟩
  | giveUp stage there finished =>
    cases Option.some.inj (has.symm.trans there)
    simp only [Standing, stage] at standing
    refine ⟨c, conclude_guarded has sends standing.2 ?_⟩
    intro f failure _
    cases failure
    exact standing.1.honest _ _ _
  | giveUpOpen stage there unfinished =>
    cases Option.some.inj (has.symm.trans there)
    simp only [Standing, stage] at standing
    refine ⟨c, conclude_guarded has sends standing.2 ?_⟩
    intro f failure _
    cases failure
    exact standing.1.honest _ _ _
  | wake stage =>
    have closed : l.stage.isOpen = false := by rw [stage]; rfl
    exact ⟨c, has, sends, .of_closed rfl (standing.honest closed)⟩
  | leave stage =>
    have closed : l.stage.isOpen = false := by
      rcases stage with ⟨_, stage⟩ | ⟨_, _, stage⟩ <;> rw [stage] <;> rfl
    exact ⟨c, has, sends, .of_closed rfl (standing.honest closed)⟩
  | strand _ _ none => cases has.symm.trans none

end

/-- A launch that does not wait for a child: it has yet to begin, or there is none. -/
structure Unwatched (l : Launch) : Prop where
  sent : l.sent = []
  calm : ∀ call ∈ l.calls, ∀ f, call.2.failure = some f → f.isTimeout = false
  idle : l.stage = .fresh ∧ l.calls = [] ∨
    l.child = none ∧ ∀ f, l.stage = .unstarted f → f.isTimeout = false

/-- The signals to a child that a launch waits for since an instant, and what was reported. -/
structure Disciplined (limit : Limit) (begun now : Instant) (c : Child) (l : Launch) : Prop where
  once : l.sent.map Sent.order ∈ [[], [.terminate], [.terminate, .kill]]
  patient : limit = .unlimited → l.sent = []
  inTime : ∀ span f, limit = .within span → c.finish = some f →
    f + Clock.millisecond ≤ begun + span → l.sent = []
  due : ∀ s ∈ l.sent, s.order = .terminate → ∃ d, limit.deadline begun = some d ∧ d ≤ s.instant
  inVain : ∀ k ∈ l.sent, k.order = .kill → ∃ s ∈ l.sent, s.order = .terminate ∧ s.taken ∧
    s.instant + Clock.second ≤ k.instant ∧ ∀ f, c.finish = some f → s.instant + Clock.second ≤ f
  noSurvivor : ∀ call ∈ l.calls, ∀ f, call.2.failure = some f → f.isTimeout →
    ∃ s ∈ l.sent, s.order = .terminate ∧
      (s.taken → ∃ code, c.returncode now = some code ∧ f.returncode = some code)

section
variable {limit : Limit} {begun now t : Instant} {c : Child} {l : Launch} {timeout : Value}

theorem Overdue.not_inTime {finish : Option Instant} {s : Instant}
    (h : Overdue limit begun finish s) {span f : Instant} (within : limit = .within span)
    (finishes : finish = some f) : ¬ f + Clock.millisecond ≤ begun + span := by
  intro early
  obtain ⟨d, deadline, passed⟩ := h.due
  rw [within] at deadline
  cases deadline
  have late : begun + span ≤ f := Nat.le_trans passed (h.unfinished span f within finishes)
  have short : f + Clock.millisecond ≤ f := Nat.le_trans early late
  exact Nat.not_lt_of_le short (Nat.lt_add_of_pos_right Clock.millisecond_pos)

theorem Overdue.limited {finish : Option Instant} {s : Instant}
    (h : Overdue limit begun finish s) : limit ≠ .unlimited := by
  rintro rfl
  obtain ⟨d, deadline, -⟩ := h.due
  cases deadline

theorem Standing.noSurvivor (h : Standing limit begun now c l) :
    ∀ call ∈ l.calls, ∀ f, call.2.failure = some f → f.isTimeout → Honest now c l.sent f := by
  cases stage : l.stage with
  | dozing _ _ _ | lingering _ | asking _ _ | ended => exact h.honest (by rw [stage]; rfl)
  | unstarted _ | fresh => simp [Standing, stage] at h
  | watching _ | terminating _ | killing | draining _ =>
    have calls : l.calls = [] := by
      simp only [Standing, stage] at h
      simp only [h]
    simp [calls]

theorem Guarded.disciplined (h : l.Guarded limit begun now c) :
    l.Disciplined limit begun now c := by
  have survivors : ∀ call ∈ l.calls, ∀ f, call.2.failure = some f → f.isTimeout →
      ∃ s ∈ l.sent, s.order = .terminate ∧
        (s.taken → ∃ code, c.returncode now = some code ∧ f.returncode = some code) := by
    intro call member f failure timedOut
    obtain ⟨s, taken, asked, exited⟩ := h.standing.noSurvivor call member f failure timedOut
    exact ⟨_, asked, rfl, exited⟩
  have sends := h.sends
  generalize sent : l.sent = signals at sends
  cases sends with
  | nothing => exact ⟨by simp [sent], fun _ => sent, fun _ _ _ _ _ => sent, by simp [sent],
      by simp [sent], survivors⟩
  | @asked s taken overdue past =>
    refine ⟨by simp [sent], ?_, ?_, ?_, by simp [sent], survivors⟩
    · intro unlimited
      exact (overdue.limited unlimited).elim
    · intro span f within finishes early
      exact (overdue.not_inTime within finishes early).elim
    · intro signal member _
      rw [sent, List.mem_singleton] at member
      rw [member]
      exact overdue.due
  | @killed s k taken overdue patient past unfinished =>
    refine ⟨by simp [sent], ?_, ?_, ?_, ?_, survivors⟩
    · intro unlimited
      exact (overdue.limited unlimited).elim
    · intro span f within finishes early
      exact (overdue.not_inTime within finishes early).elim
    · intro signal member is
      rw [sent, List.mem_cons, List.mem_singleton] at member
      rcases member with rfl | rfl
      · exact overdue.due
      · cases is
    · intro signal member is
      rw [sent, List.mem_cons, List.mem_singleton] at member
      rcases member with rfl | rfl
      · cases is
      · refine ⟨⟨s, .terminate, true⟩, by simp [sent], rfl, rfl, patient, ?_⟩
        intro f finishes
        exact Nat.le_trans patient (unfinished f finishes)

theorem create_unwatched {launcher : String} {handler : Option Handler × Recipient} {pid : Nat}
    {command : List Value} {spawn : Spawn}
    (created : create launcher handler now pid command spawn = .ok l) : l.Unwatched := by
  cases create_created created with
  | unstarted _ fault =>
    refine ⟨rfl, by simp, .inr ⟨rfl, ?_⟩⟩
    intro f stage
    cases stage
    rfl
  | started _ _ => exact ⟨rfl, by simp, .inl ⟨rfl, rfl⟩⟩

theorem Unwatched.fresh (h : l.Unwatched) (has : l.child = some c) :
    l.stage = .fresh ∧ l.calls = [] := by
  rcases h.idle with fresh | ⟨none, -⟩
  · exact fresh
  · cases has.symm.trans none

theorem Unwatched.signalled (h : l.Unwatched) (has : l.child = some c) (c' : Child) :
    ({ l with child := some c' } : Launch).Unwatched := ⟨h.sent, h.calm, .inl (h.fresh has)⟩

theorem Unwatched.close {l' : Launch} (h : l.Unwatched) (idle : l.stage ≠ .fresh)
    (child : l'.child = l.child) (sent : l'.sent = l.sent) (closed : l'.stage.isOpen = false)
    (calm : ∀ call ∈ l'.calls, ∀ f, call.2.failure = some f → f.isTimeout = false) :
    l'.Unwatched := by
  refine ⟨sent.trans h.sent, calm, ?_⟩
  rcases h.idle with ⟨fresh, -⟩ | ⟨none, -⟩
  · exact (idle fresh).elim
  · refine .inr ⟨child.trans none, ?_⟩
    intro f stage
    rw [stage] at closed
    cases closed

theorem Unwatched.tell (h : l.Unwatched) {failure : Failure}
    (stage : l.stage = .unstarted failure) :
    (l.deliver t ⟨some failure, [], []⟩).Unwatched := by
  obtain ⟨child, sent⟩ := l.deliver_child_sent t ⟨some failure, [], []⟩
  obtain ⟨calls, closed⟩ := l.deliver_calls t ⟨some failure, [], []⟩
  have idle : l.stage ≠ .fresh := by simp [stage]
  refine h.close idle child sent closed ?_
  rw [calls]
  intro call member f failed
  rcases List.mem_append.mp member with earlier | now
  · exact h.calm call earlier f failed
  · cases List.mem_singleton.mp now
    cases failed
    rcases h.idle with ⟨fresh, -⟩ | ⟨-, unstarted⟩
    · exact (idle fresh).elim
    · exact unstarted failure stage

theorem Unwatched.sends (h : l.Unwatched) (finish : Option Instant) :
    Sends limit begun now finish l.sent := by
  rw [h.sent]
  exact .nothing

theorem Unwatched.act (h : l.Unwatched) (current : l.Current) (due : l.next = some t) :
    (l.act t timeout).Unwatched ∨ l.stage = .fresh ∧
      ∃ c, (l.act t timeout).Guarded (Limit.ofSetting timeout) t t c := by
  have action : l.Action t timeout (l.act t timeout) := act_action current due
  generalize l.act t timeout = l' at action ⊢
  cases action with
  | @tell _ r stage =>
    have here : (l.having t r).Unwatched := ⟨h.sent, h.calm, h.idle⟩
    exact .inl (here.tell stage)
  | watch stage has limit =>
    refine .inr ⟨stage, _, has, h.sends _, ?_, h.sent, (h.fresh has).2⟩
    rcases limit with ⟨unlimited, rfl⟩ | ⟨span, within, rfl⟩
    · rw [unlimited]
      rfl
    · rw [within]
      rfl
  | @die _ r stage has limit =>
    refine .inr ⟨stage, _, has, h.sends _, .of_closed rfl ?_⟩
    have calls : ((l.having t r).goTo .ended).calls = [] := (h.fresh has).2
    simp [calls]
  | expire has reason =>
    obtain ⟨fresh, calls⟩ := h.fresh has
    rcases reason with ⟨-, limit⟩ | ⟨_, stage, -, -⟩
    · refine .inr ⟨fresh, _, expire_guarded h.sent calls ⟨t, ?_, Nat.le_refl t⟩ ?_⟩
      · rw [limit]
        rfl
      · simp [limit]
    · cases stage.symm.trans fresh
  | complete stage has _ | stop stage has _ | strike stage has _ _ | outlive stage has _
  | giveUp stage has _ | giveUpOpen stage has _ => cases stage.symm.trans (h.fresh has).1
  | wake stage => exact .inl (h.close (by simp [stage]) rfl rfl rfl h.calm)
  | leave stage =>
    have idle : l.stage ≠ .fresh := by
      rcases stage with ⟨_, stage⟩ | ⟨_, _, stage⟩ <;> simp [stage]
    exact .inl (h.close idle rfl rfl rfl h.calm)
  | strand _ _ none => exact .inl ⟨h.sent, h.calm, h.idle⟩

end

end Launch

/-- In a move from `v` to `v'` a launch begins to wait for its child. -/
structure Embarks (v v' : World) (i : Nat) (l : Launch) : Prop where
  there : v.runs[i]? = some (.accepted l)
  fresh : l.stage = .fresh
  acts : v'.runs[i]? = some (.accepted (l.act v.now (v.launcher l.launcher).timeout))

section
variable {allowed : Step → Prop} {start v w : World} {i : Nat} {l : Launch}

theorem Move.unwatched (move : Move allowed v w) (clocked : v.Clocked)
    (there : v.runs[i]? = some (.accepted l)) (unwatched : l.Unwatched) :
    ∃ l', w.runs[i]? = some (.accepted l') ∧ (l'.Unwatched ∨ Embarks v w i l ∧
      ∃ c, l'.Guarded (Limit.ofSetting (v.launcher l.launcher).timeout) v.now w.now c) := by
  have inForce : v.InForce fun name timeout => timeout = (v.launcher name).timeout := fun _ => rfl
  obtain ⟨l', there', passes⟩ := move.passes inForce there (clocked i l there)
  refine ⟨l', there', ?_⟩
  generalize w.now = t at passes ⊢
  cases passes with
  | wait _ _ => exact .inl unwatched
  | @act _ timeout due later same current =>
    subst timeout
    rcases unwatched.act current due with still | ⟨fresh, c, guarded⟩
    · exact .inl still
    · -- a fresh launch acts at the instant of its launch, so no time has passed
      have clock : l.clock = t := by simpa [Launch.next, Launch.awaited, fresh] using due
      have now : t = v.now := Nat.le_antisymm (clock ▸ (clocked i l there).past) later
      rw [now] at guarded there' ⊢
      exact .inr ⟨⟨there, fresh, there'⟩, c, guarded⟩
  | signal has _ _ => exact .inl (unwatched.signalled has _)

theorem Move.guarded (move : Move allowed v w) (clocked : v.Clocked)
    (there : v.runs[i]? = some (.accepted l)) {limit : Limit} {begun : Instant} {c : Child}
    (guarded : l.Guarded limit begun v.now c) :
    ∃ l' c', w.runs[i]? = some (.accepted l') ∧ l'.Guarded limit begun w.now c' := by
  have free : v.InForce fun _ _ => True := fun _ => trivial
  obtain ⟨l', there', passes⟩ := move.passes free there (clocked i l there)
  generalize w.now = t at passes ⊢
  cases passes with
  | wait later _ => exact ⟨l, c, there', guarded.wait later⟩
  | act due later _ current =>
    obtain ⟨c', acted⟩ := (guarded.wait later).act current due
    exact ⟨_, c', there', acted⟩
  | signal has takes _ =>
    cases Option.some.inj (guarded.has.symm.trans has)
    exact ⟨_, _, there', guarded.signalled takes⟩

/-- Whatever happens to a world, signals from outside included: a launch either does not wait for a
child, sent nothing and reported no timeout, or it began to wait in some move, and has kept to the
rules since for the timeout that was in force at that moment. -/
theorem signals_disciplined (new : start.runs = []) (reached : Reaches allowed start w)
    (there : w.runs[i]? = some (.accepted l)) :
    l.Unwatched ∨
      ∃ v v' l₀ c, Reaches allowed start v ∧ Move allowed v v' ∧ Reaches allowed v' w ∧
        Embarks v v' i l₀ ∧ l.child = some c ∧
        l.Disciplined (Limit.ofSetting (v.launcher l₀.launcher).timeout) v.now w.now c := by
  suffices l.Unwatched ∨
      ∃ v v' l₀ c, Reaches allowed start v ∧ Move allowed v v' ∧ Reaches allowed v' w ∧
        Embarks v v' i l₀ ∧
        l.Guarded (Limit.ofSetting (v.launcher l₀.launcher).timeout) v.now w.now c by
    rcases this with unwatched | ⟨v, v', l₀, c, before, move, after, embarks, guarded⟩
    · exact .inl unwatched
    · exact .inr ⟨v, v', l₀, c, before, move, after, embarks, guarded.has, guarded.disciplined⟩
  induction reached generalizing l with
  | refl =>
    rw [new] at there
    cases there
  | @tail u w reached move ih =>
    have clocked : u.Clocked := Reaches.clocked reached (World.clocked_of_new new)
    rcases move.origin there with ⟨l₁, was⟩ | ⟨target, handler, made, -, -⟩
    · rcases ih was with unwatched | ⟨v, v', l₀, c, before, embark, after, embarks, guarded⟩
      · obtain ⟨l', there', next⟩ := move.unwatched clocked was unwatched
        cases Option.some.inj (there.symm.trans there')
        rcases next with still | ⟨embarks, c, guarded⟩
        · exact .inl still
        · exact .inr ⟨u, w, l₁, c, reached, move, .refl, embarks, guarded⟩
      · obtain ⟨l', c', there', guarded'⟩ := move.guarded clocked was guarded
        cases Option.some.inj (there.symm.trans there')
        exact .inr ⟨v, v', l₀, c', before, embark, after.trans (.of_move move), embarks, guarded'⟩
    · obtain ⟨_, -, created⟩ := World.made_accepted made
      exact .inl (Launch.create_unwatched created)

/-- A child that is deaf to the request to stop is killed a second later. -/
theorem deaf_child_killed :
    let b : Behaviour := { exit := none, onTerminate := .ignores }
    ∃ w l v v' l₀ c, (World.solo { timeout := .flag true }).through
        [.run (World.soloTarget (.starts b)) (some .records), .sleep 2500] = some w ∧
      w.runs[0]? = some (.accepted l) ∧ l.sent.length = 2 ∧ l.calls.length = 1 ∧
      Embarks v v' 0 l₀ ∧ l.child = some c ∧
      l.Disciplined (Limit.ofSetting (v.launcher l₀.launcher).timeout) v.now w.now c := by
  intro b
  have check : ((World.solo { timeout := .flag true }).through
      [.run (World.soloTarget (.starts b)) (some .records), .sleep 2500]).any
      fun w => w.shows 0 fun l => l.sent.length = 2 && l.calls.length = 1 := by decide +kernel
  obtain ⟨w, played, h⟩ := (Option.any_eq_true _ _).mp check
  obtain ⟨l, there, is⟩ := (w.shows_iff 0 _).mp h
  simp only [Bool.and_eq_true, decide_eq_true_eq] at is
  have reached : Reaches (fun _ => True) (World.solo { timeout := .flag true }) w :=
    through_reaches (fun _ _ => trivial) played
  rcases signals_disciplined rfl reached there with unwatched | embarked
  · rw [unwatched.sent] at is
    cases is.1
  · obtain ⟨v, v', l₀, c, -, -, -, embarks, has, disciplined⟩ := embarked
    exact ⟨w, l, v, v', l₀, c, played, there, is.1, is.2, embarks, has, disciplined⟩

end

end JarLaunch
