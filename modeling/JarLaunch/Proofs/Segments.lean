import JarLaunch.Path.Links

/-! The text of a path and its pieces. Pieces are what lies between the slashes, so a text is its
pieces joined, and pieces without slashes are found again in their join. A path whose components
all name something is therefore found again in its text, root and all. -/
namespace JarLaunch

namespace Path

theorem segments_eq_splitOn (t : Text) : segments t = t.splitOn slash := by
  induction t with
  | nil => rfl
  | cons m t ih =>
    obtain ⟨piece, pieces, parted⟩ := List.exists_cons_of_ne_nil (List.splitOn_ne_nil slash t)
    rw [List.splitOn_cons_eq_if_modifyHead, segments, ih, parted]
    by_cases same : m = slash <;> simp [same]

theorem join_segments (t : Text) : Text.join [slash] (segments t) = t := by
  rw [segments_eq_splitOn]
  exact List.intercalate_splitOn slash

theorem segments_join {ps : List Text} (some : ps ≠ []) (apart : ∀ p ∈ ps, slash ∉ p) :
    segments (Text.join [slash] ps) = ps := by
  rw [segments_eq_splitOn]
  exact List.splitOn_intercalate slash apart some

theorem segments_append (s t : Text) : segments (s ++ slash :: t) = segments s ++ segments t := by
  simp only [segments_eq_splitOn, List.splitOn_append_cons_self]

theorem slash_not_mem_segments {t piece : Text} (member : piece ∈ segments t) : slash ∉ piece := by
  induction t generalizing piece with
  | nil =>
    cases List.mem_singleton.mp member
    exact List.not_mem_nil
  | cons m t ih =>
    obtain ⟨first, pieces, parted⟩ := List.exists_cons_of_ne_nil (List.splitOn_ne_nil slash t)
    rw [← segments_eq_splitOn] at parted
    simp only [segments, parted] at member ih
    split at member
    · rcases List.mem_cons.mp member with rfl | behind
      · exact List.not_mem_nil
      · exact ih behind
    · rename_i other
      rcases List.mem_cons.mp member with rfl | behind
      · intro holds
        rcases List.mem_cons.mp holds with same | within
        · exact other same.symm
        · exact ih List.mem_cons_self within
      · exact ih (List.mem_cons_of_mem _ behind)

/-- Every component names something and is one piece. -/
def Normal (p : Path) : Prop := ∀ part ∈ p.parts, names part ∧ slash ∉ part

theorem ofText_normal (t : Text) : (ofText t).Normal := by
  intro part member
  obtain ⟨piece, named⟩ := List.mem_filter.mp member
  exact ⟨named, slash_not_mem_segments piece⟩

section
variable {ps : List Text}

theorem filter_segments_join (normal : ∀ part ∈ ps, names part ∧ slash ∉ part) :
    (segments (Text.join [slash] ps)).filter names = ps := by
  cases ps with
  | nil => rfl
  | cons part parts =>
    rw [segments_join (List.cons_ne_nil part parts) fun p member => (normal p member).2,
      List.filter_eq_self.mpr fun p member => (normal p member).1]

theorem head?_join_ne_slash (normal : ∀ part ∈ ps, names part ∧ slash ∉ part) :
    (Text.join [slash] ps).head? ≠ some slash := by
  cases ps with
  | nil => simp [Text.join]
  | cons part parts =>
    obtain ⟨named, apart⟩ := normal part List.mem_cons_self
    cases part with
    | nil => simp [names] at named
    | cons m marks =>
      have other : m ≠ slash := fun same => apart (same ▸ List.mem_cons_self)
      cases parts <;> simp [Text.join, other]

end

section
variable (root : Root) {t : Text}

theorem eq_slash_of_mem_text {m : Mark} (member : m ∈ root.text) : m = slash := by
  cases root with
  | relative => cases member
  | single | double => simpa [Root.text, slash] using member

theorem takeWhile_append (bare : t.head? ≠ some slash) :
    (root.text ++ t).takeWhile (· = slash) = root.text := by
  have stop : t.takeWhile (· = slash) = [] := by
    cases t with
    | nil => rfl
    | cons m t => exact List.takeWhile_cons_of_neg (by simpa using bare)
  rw [List.takeWhile_append_of_pos (by simpa using fun m => eq_slash_of_mem_text root), stop,
    List.append_nil]

theorem rootOf_append (bare : t.head? ≠ some slash) : rootOf (root.text ++ t) = root := by
  rw [rootOf, takeWhile_append root bare]
  cases root <;> rfl

theorem dropWhile_append (bare : t.head? ≠ some slash) :
    (root.text ++ t).dropWhile (· = slash) = t := by
  have whole := List.takeWhile_append_dropWhile (p := (· = slash)) (l := root.text ++ t)
  rw [takeWhile_append root bare] at whole
  exact List.append_cancel_left whole

end

theorem rootOf_eq_relative_iff {t : Text} : rootOf t = .relative ↔ t.head? ≠ some slash := by
  constructor
  · intro relative absolute
    cases t with
    | nil => cases absolute
    | cons m marks =>
      cases Option.some.inj absolute
      rw [rootOf, List.takeWhile_cons_of_pos (by simp), List.length_cons] at relative
      split at relative <;> simp_all
  · exact rootOf_append .relative

theorem filter_segments_append (root : Root) (t : Text) :
    (segments (root.text ++ t)).filter names = (segments t).filter names := by
  have skip (s : Text) : (segments (slash :: s)).filter names = (segments s).filter names := by
    rw [← List.nil_append (slash :: s), segments_append]
    rfl
  cases root with
  | relative => rfl
  | single => exact skip t
  | double => exact (skip (slash :: t)).trans (skip t)

theorem ofText_text {p : Path} (normal : p.Normal) : ofText p.text = p := by
  obtain ⟨root, parts⟩ := p
  unfold text
  split
  next bare =>
    obtain ⟨rfl, rfl⟩ := bare
    rfl
  next => rw [ofText, rootOf_append root (head?_join_ne_slash normal), filter_segments_append,
      filter_segments_join normal]

/-- A text in normal form has the root and the components of the text it was made from. -/
theorem ofText_text_ofText (t : Text) : ofText (ofText t).text = ofText t :=
  ofText_text (ofText_normal t)

end Path

end JarLaunch
