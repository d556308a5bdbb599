import JarLaunch.Scenario

/-! The agenda of a world: the action that comes next is the earliest of all, and a wait that comes
to its end leaves nothing undone that was due. -/
namespace JarLaunch.World

theorem firstOf_instant_le (best : Option (Instant × Nat × Nat)) (c d : Instant × Nat × Nat)
    (chosen : firstOf best c = some d) :
    (best = some d ∨ d = c) ∧ d.1 ≤ c.1 ∧ ∀ b, best = some b → d.1 ≤ b.1 := by
  cases best with
  | none =>
    have h : c = d := Option.some.inj chosen
    subst d
    exact ⟨.inr rfl, Nat.le_refl _, fun b hb => nomatch hb⟩
  | some b =>
    simp only [firstOf] at chosen
    split at chosen
    · rename_i earlier
      cases Option.some.inj chosen
      have h : c.1 ≤ b.1 := by
        simp only [before, Bool.or_eq_true, Bool.and_eq_true, decide_eq_true_eq] at earlier
        grind
      exact ⟨.inr rfl, Nat.le_refl _, fun b' hb => Option.some.inj hb ▸ h⟩
    · rename_i later
      have same : b = d := Option.some.inj chosen
      subst d
      have h : b.1 ≤ c.1 := by
        simp only [before, Bool.or_eq_true, Bool.and_eq_true, decide_eq_true_eq] at later
        grind
      exact ⟨.inl rfl, h, fun b' hb => Option.some.inj hb ▸ Nat.le_refl _⟩

theorem foldl_firstOf_eq_none (cs : List (Instant × Nat × Nat))
    (best : Option (Instant × Nat × Nat)) (nothing : cs.foldl firstOf best = none) :
    best = none ∧ cs = [] := by
  induction cs generalizing best with
  | nil => exact ⟨nothing, rfl⟩
  | cons c cs ih =>
    have h := (ih _ nothing).1
    cases best with
    | none => simp [firstOf] at h
    | some b =>
      simp only [firstOf] at h
      split at h <;> contradiction

theorem foldl_firstOf_eq_some (cs : List (Instant × Nat × Nat))
    (best : Option (Instant × Nat × Nat)) (d : Instant × Nat × Nat)
    (chosen : cs.foldl firstOf best = some d) :
    (best = some d ∨ d ∈ cs) ∧ (∀ c ∈ cs, d.1 ≤ c.1) ∧ ∀ b, best = some b → d.1 ≤ b.1 := by
  induction cs generalizing best with
  | nil =>
    have same : best = some d := chosen
    exact ⟨.inl same, fun c hc => (nomatch hc),
      fun b hb => Option.some.inj (same.symm.trans hb) ▸ Nat.le_refl _⟩
  | cons c cs ih =>
    obtain ⟨from_, least, below⟩ := ih _ chosen
    obtain ⟨e, he⟩ : ∃ e, firstOf best c = some e := by
      cases h : firstOf best c with
      | none =>
        cases best with
        | none => cases h
        | some b =>
          simp only [firstOf] at h
          split at h <;> contradiction
      | some e => exact ⟨e, rfl⟩
    obtain ⟨origin, ec, eb⟩ := firstOf_instant_le best c e he
    have de : d.1 ≤ e.1 := below e he
    refine ⟨?_, ?_, fun b hb => Nat.le_trans de (eb b hb)⟩
    · rcases from_ with h | h
      · cases Option.some.inj (he.symm.trans h)
        rcases origin with o | o
        · exact .inl o
        · exact .inr (o ▸ List.mem_cons_self)
      · exact .inr (List.mem_cons_of_mem _ h)
    · intro x hx
      rcases List.mem_cons.mp hx with hx | hx
      · subst x
        exact Nat.le_trans de ec
      · exact least x hx

def candidates (w : World) : List (Instant × Nat × Nat) :=
  w.runs.zipIdx.filterMap fun (r, i) => r.next.map fun t => (t, r.turn, i)

theorem mem_candidates (w : World) (t : Instant) (k i : Nat) :
    (t, k, i) ∈ w.candidates ↔ ∃ r, w.runs[i]? = some r ∧ r.next = some t ∧ r.turn = k := by
  simp only [candidates, List.mem_filterMap, List.mem_zipIdx_iff_getElem?, Option.map_eq_some_iff,
    Prod.mk.injEq, Prod.exists]
  constructor
  · rintro ⟨r, j, hr, u, hu, rfl, rfl, rfl⟩
    exact ⟨r, hr, hu, rfl⟩
  · rintro ⟨r, hr, hu, rfl⟩
    exact ⟨r, i, hr, t, hu, rfl, rfl, rfl⟩

theorem next_eq (w : World) :
    w.next = (w.candidates.foldl firstOf none).map fun c => (c.1, c.2.2) := rfl

theorem next_eq_some {w : World} {t : Instant} {i : Nat} (first : w.next = some (t, i)) :
    ∃ l, w.runs[i]? = some (.accepted l) ∧ l.next = some t := by
  rw [next_eq, Option.map_eq_some_iff] at first
  obtain ⟨⟨u, k, j⟩, chosen, h⟩ := first
  cases h
  obtain ⟨h | member, -, -⟩ := foldl_firstOf_eq_some _ _ _ chosen
  · cases h
  · obtain ⟨r, hr, due, -⟩ := (mem_candidates w u k j).mp member
    cases r with
    | refused _ _ => cases due
    | accepted l => exact ⟨l, hr, due⟩

theorem next_le {w : World} {t : Instant} {i : Nat} (first : w.next = some (t, i)) {j : Nat}
    {l : Launch} (there : w.runs[j]? = some (.accepted l)) {u : Instant} (due : l.next = some u) :
    t ≤ u := by
  rw [next_eq, Option.map_eq_some_iff] at first
  obtain ⟨c, chosen, h⟩ := first
  cases h
  exact (foldl_firstOf_eq_some _ _ _ chosen).2.1 (u, _, j)
    ((mem_candidates w u _ j).mpr ⟨_, there, due, rfl⟩)

theorem next_eq_none {w : World} (idle : w.next = none) {j : Nat} {l : Launch}
    (there : w.runs[j]? = some (.accepted l)) : l.next = none := by
  cases due : l.next with
  | none => rfl
  | some u =>
    rw [next_eq, Option.map_eq_none_iff] at idle
    have h := (mem_candidates w u _ j).mpr ⟨_, there, due, rfl⟩
    rw [(foldl_firstOf_eq_none _ _ idle).2] at h
    cases h

theorem isDone_eq_false (w : World) (i : Nat) :
    w.isDone i = false ↔ ∃ l, w.runs[i]? = some (.accepted l) ∧ l.stage ≠ .ended := by
  unfold isDone
  cases w.runs[i]? with
  | none => simp
  | some r =>
    cases r with
    | refused _ _ => simp [Run.launch?]
    | accepted l => cases stage : l.stage <;> simp [Run.launch?, stage, Stage.isEnded]

theorem ended_of_isDone {w : World} {i : Nat} {l : Launch} (done : w.isDone i)
    (there : w.runs[i]? = some (.accepted l)) : l.stage = .ended := by
  cases stage : l.stage <;>
    simp [isDone, there, Run.launch?, stage, Stage.isEnded] at done ⊢

theorem mem_undone (w : World) (i : Nat) : i ∈ w.undone ↔ i ∈ w.tasks ∧ w.isDone i = false := by
  simp [undone]

theorem mem_outstanding (w : World) (launcher : String) (i : Nat) :
    i ∈ w.outstanding launcher ↔
      ∃ l, w.runs[i]? = some (.accepted l) ∧ l.launcher = launcher ∧ i ∈ w.tasks := by
  simp only [outstanding, List.mem_map, List.mem_filter, Prod.exists, exists_eq_right,
    List.mem_zipIdx_iff_getElem?, Bool.and_eq_true, List.contains_iff_mem]
  constructor
  · rintro ⟨r, there, owner, kept⟩
    cases r with
    | refused _ _ => cases owner
    | accepted l => exact ⟨l, there, by simpa [Run.isOn, Run.launch?] using owner, kept⟩
  · rintro ⟨l, there, owner, kept⟩
    exact ⟨.accepted l, there, by simpa [Run.isOn, Run.launch?] using owner, kept⟩

theorem pending_ne_zero {w : World} {launcher : String} :
    w.pending launcher ≠ 0 ↔ ∃ i, i ∈ w.outstanding launcher := by
  rw [pending, ← Nat.pos_iff_ne_zero]
  exact List.length_pos_iff_exists_mem

/-- Nothing is due any more up to the present instant. -/
def Settled (w : World) : Prop := ∀ t i, w.next = some (t, i) → w.now < t

theorem Settled.lt_next {w : World} (settled : w.Settled) {j : Nat} {l : Launch}
    (there : w.runs[j]? = some (.accepted l)) {u : Instant} (due : l.next = some u) :
    w.now < u := by
  cases first : w.next with
  | none => cases (next_eq_none first there).symm.trans due
  | some c => exact Nat.lt_of_lt_of_le (settled c.1 c.2 first) (next_le first there due)

end JarLaunch.World
