import JarLaunch.Reading
import Mathlib.Data.List.Sort

/-! What goes through the pipes of a child. The writes that reach a pipe are read in the order they
are made. A signal may bring the end of a child forward but not into the past, so it changes nothing
of what has gone through by then. -/
namespace JarLaunch

namespace Clock

theorem millisecond_pos : 0 < millisecond := by decide +kernel

theorem millis_add (m n : Nat) : millis (m + n) = millis m + millis n := Nat.add_mul m n _

theorem millis_le_millis {m n : Nat} : millis m ≤ millis n ↔ m ≤ n :=
  Nat.mul_le_mul_right_iff millisecond_pos

end Clock

/-- Writes in the order they were made: by time, and as they are listed where times agree. -/
structure Chronicle (writes ordered : List Write) : Prop where
  perm : ordered.Perm writes
  sorted : ordered.Pairwise (·.delay ≤ ·.delay)
  stable : ∀ ws : List Write, ws.Pairwise (·.delay ≤ ·.delay) → ws.Sublist writes →
    ws.Sublist ordered

def Write.NoLater (a b : Write) : Prop := a.delay ≤ b.delay

instance : DecidableRel Write.NoLater := fun a b => inferInstanceAs (Decidable (a.delay ≤ b.delay))

instance : IsTrans Write Write.NoLater := ⟨fun _ _ _ => Nat.le_trans⟩

instance : Std.Total Write.NoLater := ⟨fun a b => Nat.le_total a.delay b.delay⟩

theorem Write.insert_eq (w : Write) (ws : List Write) :
    w.insert ws = ws.orderedInsert NoLater w := by
  induction ws with
  | nil => rfl
  | cons v vs ih =>
    rw [insert, ih]
    rfl

theorem chronicle_insertionSort (ws : List Write) :
    Chronicle ws (ws.insertionSort Write.NoLater) :=
  ⟨List.perm_insertionSort _ _, List.pairwise_insertionSort _ _,
    fun _ sorted part => List.sublist_insertionSort sorted part⟩

namespace Behaviour

theorem schedule_eq (b : Behaviour) : b.schedule = b.writes.insertionSort Write.NoLater := by
  unfold schedule
  induction b.writes with
  | nil => rfl
  | cons w ws ih => rw [List.foldr_cons, ih, Write.insert_eq, List.insertionSort_cons]

theorem schedule_chronicle (b : Behaviour) : Chronicle b.writes b.schedule := by
  rw [schedule_eq]
  exact chronicle_insertionSort b.writes

end Behaviour

section
variable {writes ordered ws : List Write} {p : Write → Bool}

theorem Chronicle.filter (h : Chronicle writes ordered) (p : Write → Bool) :
    Chronicle (writes.filter p) (ordered.filter p) := by
  refine ⟨h.perm.filter p, h.sorted.filter p, fun ws sorted part => ?_⟩
  have all : ∀ w ∈ ws, p w := fun w member => (List.mem_filter.mp (part.subset member)).2
  rw [← List.filter_eq_self.mpr all]
  exact (h.stable ws sorted (part.trans List.filter_sublist)).filter p

theorem filter_append_of_sorted (down : ∀ a b : Write, a.delay ≤ b.delay → p b → p a)
    (sorted : ws.Pairwise (·.delay ≤ ·.delay)) : ws.filter p ++ ws.filter (!p ·) = ws := by
  induction sorted with
  | nil => rfl
  | @cons a ws first _ ih =>
    by_cases early : p a
    · simpa [early] using ih
    · have late : ∀ b ∈ ws, p b = false := by
        intro b member
        apply Bool.eq_false_iff.mpr
        intro sooner
        exact early (down a b (first b member) sooner)
      have none : ws.filter p = [] := by simpa using late
      have all : ws.filter (!p ·) = ws := by simpa using late
      simp [early, none, all]

theorem filter_since (f : Write → Instant) (mono : ∀ a b, a.delay ≤ b.delay → f a ≤ f b)
    {t now : Instant} (le : t ≤ now) (sorted : ws.Pairwise (·.delay ≤ ·.delay))
    (here kept : Write → Bool) :
    ws.filter (fun w => here w && f w ≤ now && kept w) =
      ws.filter (fun w => here w && f w ≤ t && kept w) ++
        (ws.filter fun w => (some t).all (· < f w) && f w ≤ now && kept w).filter here := by
  rw [← filter_append_of_sorted (p := (f · ≤ t)) _ (sorted.filter _), List.filter_filter,
    List.filter_filter, List.filter_filter]
  · refine congrArg₂ (· ++ ·) (List.filter_congr fun w _ => ?_) (List.filter_congr fun w _ => ?_)
    · by_cases past : f w ≤ t
      · simp [past, Nat.le_trans past le]
      · simp [past]
    · by_cases past : f w ≤ t
      · simp [past, Nat.not_lt_of_le past]
      · simp [past, Nat.lt_of_not_le past, Bool.and_assoc]
  · intro a b before past
    exact decide_eq_true (Nat.le_trans (mono a b before) (of_decide_eq_true past))

end

namespace Child

def leaves (c : Child) : Option Instant := c.exit.map (·.1)

theorem exitedBy_iff (c : Child) (now : Instant) :
    c.exitedBy now ↔ ∃ e, c.leaves = some e ∧ e ≤ now := by
  unfold exitedBy leaves
  cases c.exit <;> simp

theorem finish_eq (c : Child) :
    c.finish = c.leaves.bind fun e => c.behaviour.hold.map (e + Clock.millis ·) := by
  unfold finish leaves
  cases c.exit with
  | none => rfl
  | some e => cases c.behaviour.hold <;> rfl

theorem leaves_le_finish {c : Child} {f : Instant} (h : c.finish = some f) :
    ∃ e, c.leaves = some e ∧ e ≤ f := by
  rw [finish_eq, Option.bind_eq_some_iff] at h
  obtain ⟨e, leaves, held⟩ := h
  obtain ⟨hold, -, rfl⟩ := Option.map_eq_some_iff.mp held
  exact ⟨e, leaves, Nat.le_add_right _ _⟩

theorem finishedBy_iff (c : Child) (now : Instant) :
    c.finishedBy now ↔ ∃ f, c.finish = some f ∧ f ≤ now := by
  simp only [finishedBy, Option.any_eq_true, decide_eq_true_eq]

theorem finishedBy_of_finish {c : Child} {f t : Instant} (finish : c.finish = some f) (le : f ≤ t) :
    c.finishedBy t := (c.finishedBy_iff t).mpr ⟨f, finish, le⟩

theorem finishedBy_mono {c : Child} {s t : Instant} (h : c.finishedBy s) (le : s ≤ t) :
    c.finishedBy t := by
  obtain ⟨f, finish, past⟩ := (c.finishedBy_iff s).mp h
  exact finishedBy_of_finish finish (Nat.le_trans past le)

theorem exitedBy_of_finishedBy {c : Child} {now : Instant} (h : c.finishedBy now) :
    c.exitedBy now := by
  obtain ⟨f, finish, le⟩ := (c.finishedBy_iff now).mp h
  obtain ⟨e, leaves, le'⟩ := leaves_le_finish finish
  exact (c.exitedBy_iff now).mpr ⟨e, leaves, Nat.le_trans le' le⟩

theorem keeps_iff (c : Child) (w : Write) : c.keeps w ↔
    (w.byGrandchild ∨ ∀ e, c.exit = some e → c.writtenAt w ≤ e.1) ∧
      ∀ f, c.finish = some f → c.writtenAt w ≤ f := by
  simp only [keeps, Bool.and_eq_true, Bool.or_eq_true, Option.all_eq_true, decide_eq_true_eq]

theorem keeps_of_le {c : Child} {t : Instant} {w : Write} (ahead : ∀ e, c.leaves = some e → t ≤ e)
    (made : c.writtenAt w ≤ t) : c.keeps w := by
  rw [keeps_iff]
  refine ⟨.inr ?_, ?_⟩
  · intro e exit
    exact Nat.le_trans made (ahead e.1 (by rw [leaves, exit, Option.map_some]))
  · intro f finish
    obtain ⟨e, leaves, le⟩ := leaves_le_finish finish
    exact Nat.le_trans made (Nat.le_trans (ahead e leaves) le)

def written (c : Child) (stream : Stream) (now : Instant) : List Write :=
  c.behaviour.schedule.filter fun w => w.stream = stream && c.writtenAt w ≤ now && c.keeps w

def output (c : Child) (stream : Stream) (now : Instant) : List UInt8 :=
  (c.written stream now).flatMap Write.bytes

theorem written_chronicle (c : Child) (stream : Stream) (now : Instant) :
    Chronicle (c.behaviour.writes.filter fun w =>
      w.stream = stream && c.writtenAt w ≤ now && c.keeps w) (c.written stream now) :=
  c.behaviour.schedule_chronicle.filter _

theorem written_begin (c : Child) (stream : Stream) (now : Instant) :
    c.written stream now = (c.arrivals none now).filter (·.stream = stream) := by
  simp [written, arrivals, List.filter_filter, Bool.and_assoc]

/-- What has gone through a pipe by an instant is what had gone through before and what has arrived
since. -/
theorem written_advance (c : Child) (stream : Stream) {t now : Instant} (le : t ≤ now) :
    c.written stream now =
      c.written stream t ++ (c.arrivals (some t) now).filter (·.stream = stream) :=
  filter_since c.writtenAt (fun _ _ le => Nat.add_le_add_left (Clock.millis_le_millis.mpr le) _) le
    c.behaviour.schedule_chronicle.sorted _ _

theorem mem_arrivals {c : Child} {since : Option Instant} {now : Instant} {w : Write} :
    w ∈ c.arrivals since now ↔ w ∈ c.behaviour.schedule ∧
      (∀ s, since = some s → s < c.writtenAt w) ∧ c.writtenAt w ≤ now ∧ c.keeps w := by
  simp only [arrivals, List.mem_filter, Bool.and_eq_true, Option.all_eq_true, decide_eq_true_eq,
    and_assoc]

theorem arrivals_of_finished {c : Child} {t : Instant} (finished : c.finishedBy t) (now : Instant) :
    c.arrivals (some t) now = [] := by
  obtain ⟨f, finish, past⟩ := (c.finishedBy_iff t).mp finished
  refine List.eq_nil_iff_forall_not_mem.mpr fun w member => ?_
  obtain ⟨-, later, -, keeps⟩ := mem_arrivals.mp member
  have made := ((c.keeps_iff w).mp keeps).2 f finish
  exact Nat.not_lt_of_le (Nat.le_trans made past) (later t rfl)

/-- What becomes of a child that takes a signal: nothing, or an earlier exit that is still ahead. -/
inductive Takes (now : Instant) (c : Child) : Child → Prop where
  | unmoved : Takes now c c
  | moved {t : Instant} {code : Int} (running : ¬ c.exitedBy now) (ahead : now ≤ t) :
      Takes now c { c with exit := some (t, code) }

section
variable {now t : Instant} {c c' : Child} {stream : Stream}

theorem exitAt_takes (running : ¬ c.exitedBy now) {t : Instant} (ahead : now ≤ t) (code : Int) :
    c.Takes now (c.exitAt t code) := by
  have moved : c.Takes now { c with exit := some (t, code) } := .moved running ahead
  unfold exitAt
  split
  · split
    · exact .unmoved
    · exact moved
  · exact moved

theorem signal?_takes {reaction : Reaction} (taken : c.signal? reaction now = some c') :
    c.Takes now c' := by
  unfold signal? at taken
  split at taken
  · cases taken
  · split at taken
    · cases Option.some.inj taken
      exact .unmoved
    · rename_i running
      cases reaction with
      | exits delay code =>
        cases Option.some.inj taken
        exact exitAt_takes running (Nat.le_add_right _ _) code
      | ignores | lost =>
        cases Option.some.inj taken
        exact .unmoved

theorem takes_of_signal (taken : c.terminate? now = some c' ∨ c.kill? now = some c') :
    c.Takes now c' := by
  rcases taken with h | h
  · exact signal?_takes h
  · exact signal?_takes h

theorem terminate?_takes (c : Child) (now : Instant) :
    c.Takes now ((c.terminate? now).getD c) := by
  cases h : c.terminate? now with
  | none => exact .unmoved
  | some c' => exact takes_of_signal (.inl h)

theorem kill?_takes (c : Child) (now : Instant) : c.Takes now ((c.kill? now).getD c) := by
  cases h : c.kill? now with
  | none => exact .unmoved
  | some c' => exact takes_of_signal (.inr h)

theorem Takes.pid (takes : c.Takes now c') : c'.pid = c.pid := by
  cases takes <;> rfl

theorem Takes.eq_of_exited (takes : c.Takes now c') (exited : c.exitedBy now) : c' = c := by
  cases takes with
  | unmoved => rfl
  | moved running _ => exact (running exited).elim

theorem Takes.finish (takes : c.Takes now c') {f : Instant} (h : c'.finish = some f) :
    c.finish = some f ∨ now ≤ f := by
  cases takes with
  | unmoved => exact .inl h
  | moved _ ahead =>
    obtain ⟨e, leaves, le⟩ := leaves_le_finish h
    cases Option.some.inj leaves
    exact .inr (Nat.le_trans ahead le)

/-- A signal does not change what has gone through a pipe before it. -/
theorem Takes.output (takes : c.Takes now c') (past : t ≤ now) :
    c'.output stream t = c.output stream t := by
  cases takes with
  | unmoved => rfl
  | @moved e code running ahead =>
    have before : ∀ e, c.leaves = some e → t ≤ e := by
      intro e leaves
      apply Nat.le_of_not_lt
      intro left
      exact running ((c.exitedBy_iff now).mpr
        ⟨e, leaves, Nat.le_of_lt (Nat.lt_of_lt_of_le left past)⟩)
    have after : ∀ e', ({ c with exit := some (e, code) } : Child).leaves = some e' → t ≤ e' := by
      intro e' leaves
      cases Option.some.inj leaves
      exact Nat.le_trans past ahead
    have same : ∀ w ∈ c.behaviour.schedule,
        (w.stream = stream && c.writtenAt w ≤ t &&
          ({ c with exit := some (e, code) } : Child).keeps w) =
        (w.stream = stream && c.writtenAt w ≤ t && c.keeps w) := by
      intro w _
      by_cases made : c.writtenAt w ≤ t
      · rw [keeps_of_le before made, keeps_of_le after made]
      · simp [made]
    exact congrArg (List.flatMap Write.bytes) (List.filter_congr same)

end

end Child

end JarLaunch
