import Mathlib.Data.List.Forall2

/-!
# Computations that can fail

Inversion of a sequence of steps in `Except`, and of `List.mapM` in `Option`: a successful run
relates its input and its output element by element, and `List.Forall₂` hands a related element back
for each member of either list.
-/

universe u v

/-- A computation and what follows it succeed. -/
theorem Except.bind_eq_ok {ε : Type u} {α β : Type v} {x : Except ε α} {f : α → Except ε β} {b : β} :
    (x >>= f) = .ok b ↔ ∃ a, x = .ok a ∧ f a = .ok b := by
  cases x with
  | error e => simp [bind, Except.bind]
  | ok a => simp [bind, Except.bind]

/-- A computation or what follows it fails. -/
theorem Except.bind_eq_error {ε : Type u} {α β : Type v} {x : Except ε α} {f : α → Except ε β}
    {e : ε} : (x >>= f) = .error e ↔ x = .error e ∨ ∃ a, x = .ok a ∧ f a = .error e := by
  cases x with
  | error e => simp [bind, Except.bind]
  | ok a => simp [bind, Except.bind]

/-- A value succeeds. -/
theorem Except.pure_eq_ok {ε : Type u} {α : Type v} {a b : α} :
    (pure a : Except ε α) = .ok b ↔ a = b :=
  ⟨Except.ok.inj, fun h => h ▸ rfl⟩

/-! ## Loops -/

/-- A loop of checks succeeds when every check does. -/
theorem Except.forM_eq_ok {ε : Type u} {α : Type v} {f : α → Except ε PUnit} {as : List α}
    {u : PUnit} : as.forM f = .ok u ↔ ∀ a ∈ as, f a = .ok ⟨⟩ := by
  induction as with
  | nil => exact ⟨fun _ _ h => (List.not_mem_nil h).elim, fun _ => rfl⟩
  | cons a as ih =>
    show (f a >>= fun _ => as.forM f) = .ok u ↔ _
    rw [Except.bind_eq_ok, List.forall_mem_cons]
    constructor
    · rintro ⟨u, first, rest⟩
      exact ⟨first, ih.mp rest⟩
    · rintro ⟨first, rest⟩
      exact ⟨⟨⟩, first, ih.mpr rest⟩

/-- An invariant of a loop over the elements done and the value so far. -/
theorem Except.foldlM_invariant {ε : Type u} {α : Type*} {β : Type v} {f : β → α → Except ε β}
    (P : List α → β → Prop)
    (step : ∀ done a b b', P done b → f b a = .ok b' → P (done ++ [a]) b') {done as : List α}
    {b b' : β} (start : P done b) (h : as.foldlM f b = .ok b') : P (done ++ as) b' := by
  induction as generalizing done b with
  | nil =>
    cases h
    rwa [List.append_nil]
  | cons a as ih =>
    rw [List.foldlM_cons] at h
    obtain ⟨middle, first, rest⟩ := Except.bind_eq_ok.mp h
    have := ih (step done a b middle start first) rest
    rwa [List.append_assoc] at this

/-- A loop that fails does so at one of its elements. -/
theorem Except.exists_of_foldlM_error {ε : Type u} {α : Type*} {β : Type v} {f : β → α → Except ε β}
    {as : List α} {b : β} {e : ε} (h : as.foldlM f b = .error e) :
    ∃ a ∈ as, ∃ before, f before a = .error e := by
  induction as generalizing b with
  | nil => cases h
  | cons a as ih =>
    rw [List.foldlM_cons] at h
    rcases Except.bind_eq_error.mp h with h | ⟨middle, -, h⟩
    · exact ⟨a, List.mem_cons_self, b, h⟩
    · obtain ⟨other, mem, before, h⟩ := ih h
      exact ⟨other, List.mem_cons_of_mem _ mem, before, h⟩

/-! ## Success -/

/-- The computation has a value. -/
def Except.Succeeds {ε : Type u} {α : Type v} (x : Except ε α) : Prop := ∃ a, x = .ok a

namespace Except

variable {ε : Type u} {α β : Type v}

/-- A success. -/
@[simp] theorem succeeds_ok (a : α) : (.ok a : Except ε α).Succeeds := ⟨a, rfl⟩

/-- A value. -/
@[simp] theorem succeeds_pure (a : α) : (pure a : Except ε α).Succeeds := ⟨a, rfl⟩

/-- A failure. -/
@[simp] theorem not_succeeds_error (e : ε) : ¬ (.error e : Except ε α).Succeeds := by
  rintro ⟨a, h⟩
  cases h

/-- Whether the second step succeeds does not depend on the value of the first one. -/
theorem succeeds_bind {x : Except ε α} {f : α → Except ε β} {P : Prop}
    (hf : ∀ a, x = .ok a → ((f a).Succeeds ↔ P)) : (x >>= f).Succeeds ↔ x.Succeeds ∧ P := by
  constructor
  · rintro ⟨b, h⟩
    obtain ⟨a, ha, hb⟩ := bind_eq_ok.mp h
    exact ⟨⟨a, ha⟩, (hf a ha).mp ⟨b, hb⟩⟩
  · rintro ⟨⟨a, ha⟩, hP⟩
    obtain ⟨b, hb⟩ := (hf a ha).mpr hP
    exact ⟨b, bind_eq_ok.mpr ⟨a, ha, hb⟩⟩

/-- Only the first step can fail. -/
theorem succeeds_first {x : Except ε α} {f : α → Except ε β} (hf : ∀ a, (f a).Succeeds) :
    (x >>= f).Succeeds ↔ x.Succeeds := by
  rw [succeeds_bind fun a _ => iff_true_intro (hf a)]
  exact and_iff_left trivial

/-- What is made of a value succeeds with it. -/
theorem succeeds_map {x : Except ε α} {f : α → β} :
    (x >>= fun a => pure (f a)).Succeeds ↔ x.Succeeds :=
  succeeds_first fun a => succeeds_pure (f a)

end Except

namespace List

variable {α β : Type*} {R : α → β → Prop} {as : List α} {bs : List β}

/-- What corresponds to a member on the left. -/
theorem Forall₂.exists_of_mem_left (h : Forall₂ R as bs) {a : α} (ha : a ∈ as) :
    ∃ b ∈ bs, R a b := by
  induction h with
  | nil => cases ha
  | cons hab _ ih =>
    rcases List.mem_cons.mp ha with rfl | ha
    · exact ⟨_, List.mem_cons_self, hab⟩
    · obtain ⟨b, hb, hR⟩ := ih ha
      exact ⟨b, List.mem_cons_of_mem _ hb, hR⟩

/-- What corresponds to a member on the right. -/
theorem Forall₂.exists_of_mem_right (h : Forall₂ R as bs) {b : β} (hb : b ∈ bs) :
    ∃ a ∈ as, R a b :=
  h.flip.exists_of_mem_left hb

/-- Values that related elements have in common are the same lists. -/
theorem Forall₂.map_eq_map {γ : Type*} {f : α → γ} {g : β → γ} (h : Forall₂ R as bs)
    (same : ∀ a b, R a b → g b = f a) : bs.map g = as.map f := by
  induction h with
  | nil => rfl
  | cons hab _ ih => rw [map_cons, map_cons, same _ _ hab, ih]

/-- Related elements stand at the same index. -/
theorem Forall₂.getElem?_left (h : Forall₂ R as bs) {i : ℕ} {a : α} (here : as[i]? = some a) :
    ∃ b, bs[i]? = some b ∧ R a b := by
  induction h generalizing i with
  | nil => cases here
  | cons hab _ ih =>
    cases i with
    | zero =>
      cases here
      exact ⟨_, rfl, hab⟩
    | succ i => exact ih here

/-- A successful `mapM` relates the lists element by element. -/
theorem forall₂_of_mapM {α β : Type} {f : α → Option β} {as : List α} {bs : List β}
    (h : as.mapM f = some bs) : Forall₂ (fun a b => f a = some b) as bs := by
  induction as generalizing bs with
  | nil =>
    cases h
    exact .nil
  | cons a as ih =>
    simp only [mapM_cons, Option.bind_eq_bind, Option.bind_eq_some_iff, Option.pure_def,
      Option.some.injEq] at h
    obtain ⟨b, hb, bs, hbs, rfl⟩ := h
    exact .cons hb (ih hbs)

/-- A `mapM` in `Except` succeeds with the values of its elements. -/
theorem mapM_eq_ok {ε : Type u} {α : Type*} {β : Type v} {f : α → Except ε β} {as : List α}
    {bs : List β} : as.mapM f = .ok bs ↔ Forall₂ (fun a b => f a = .ok b) as bs := by
  induction as generalizing bs with
  | nil =>
    rw [mapM_nil, Except.pure_eq_ok, forall₂_nil_left_iff, eq_comm]
  | cons a as ih =>
    rw [mapM_cons, Except.bind_eq_ok, forall₂_cons_left_iff]
    constructor
    · rintro ⟨b, first, rest⟩
      obtain ⟨others, rest, same⟩ := Except.bind_eq_ok.mp rest
      exact ⟨b, others, first, ih.mp rest, (Except.pure_eq_ok.mp same).symm⟩
    · rintro ⟨b, others, first, rest, rfl⟩
      exact ⟨b, first, Except.bind_eq_ok.mpr ⟨others, ih.mpr rest, rfl⟩⟩

/-- Members that each have a partner. -/
theorem exists_forall₂ (h : ∀ a ∈ as, ∃ b, R a b) : ∃ bs, Forall₂ R as bs := by
  induction as with
  | nil => exact ⟨[], .nil⟩
  | cons a as ih =>
    obtain ⟨b, first⟩ := h a mem_cons_self
    obtain ⟨bs, rest⟩ := ih fun other mem => h other (mem_cons_of_mem _ mem)
    exact ⟨b :: bs, .cons first rest⟩

/-- A `mapM` in `Except` has a value when every element has one. -/
theorem succeeds_mapM {ε : Type u} {α : Type*} {β : Type v} {f : α → Except ε β} {as : List α} :
    (as.mapM f).Succeeds ↔ ∀ a ∈ as, (f a).Succeeds := by
  constructor
  · rintro ⟨bs, made⟩ a mem
    obtain ⟨b, -, own⟩ := (mapM_eq_ok.mp made).exists_of_mem_left mem
    exact ⟨b, own⟩
  · intro all
    obtain ⟨bs, made⟩ := exists_forall₂ all
    exact ⟨bs, mapM_eq_ok.mpr made⟩

/-- Choices that each succeed. -/
theorem mapM_total {α β : Type} {f : α → Option β} {as : List α}
    (h : ∀ a ∈ as, ∃ b, f a = some b) : ∃ bs, as.mapM f = some bs := by
  induction as with
  | nil => exact ⟨[], rfl⟩
  | cons a as ih =>
    obtain ⟨b, first⟩ := h a mem_cons_self
    obtain ⟨bs, rest⟩ := ih fun other mem => h other (mem_cons_of_mem _ mem)
    exact ⟨b :: bs, by simp [mapM_cons, first, rest]⟩

/-- A function that agrees where another one is defined maps a list the same way. -/
theorem mapM_mono {α β : Type} {f f' : α → Option β} (agree : ∀ a b, f a = some b → f' a = some b)
    {as : List α} {bs : List β} (h : as.mapM f = some bs) : as.mapM f' = some bs := by
  induction as generalizing bs with
  | nil => exact h
  | cons a as ih =>
    simp only [mapM_cons, Option.bind_eq_bind, Option.bind_eq_some_iff, Option.pure_def,
      Option.some.injEq] at h ⊢
    obtain ⟨b, first, bs, known, rfl⟩ := h
    exact ⟨b, agree a b first, bs, ih known, rfl⟩

end List
