import Mathlib.Data.List.Forall2

namespace CodeAudit.Success

variable {ε α β : Type}

theorem of_bind {x : Except ε α} {next : α → Except ε β} {b : β} (h : x >>= next = .ok b) :
    ∃ a, x = .ok a ∧ next a = .ok b := by
  match x with
  | .ok a => exact ⟨a, rfl, h⟩
  | .error _ => cases h

theorem of_mapError {δ : Type} {x : Except ε α} {wrap : ε → δ} {a : α}
    (h : x.mapError wrap = .ok a) : x = .ok a := by
  match x with
  | .ok _ => exact congrArg Except.ok (Except.ok.inj h)
  | .error _ => cases h

theorem of_toOption {x : Except ε α} {a : α} (h : x.toOption = some a) : x = .ok a := by
  match x with
  | .ok _ => exact congrArg Except.ok (Option.some.inj h)
  | .error _ => cases h

theorem foldlM_append {f : β → α → Except ε β} {xs : List α} {b c : β}
    (h : xs.foldlM f b = .ok c) (ys : List α) : (xs ++ ys).foldlM f b = ys.foldlM f c := by
  rw [List.foldlM_append, h]
  rfl

theorem foldlM_singleton {f : β → α → Except ε β} {x : α} {b c : β} (h : f b x = .ok c) :
    [x].foldlM f b = .ok c := by
  rw [List.foldlM_cons, h]
  rfl

theorem foldlM_preserves {P : β → Prop} {f : β → α → Except ε β}
    (hstep : ∀ {b a c}, P b → f b a = .ok c → P c) {xs : List α} {b c : β} (hb : P b)
    (h : xs.foldlM f b = .ok c) : P c := by
  induction xs generalizing b with
  | nil =>
    obtain rfl := Except.ok.inj h
    exact hb
  | cons x rest ih =>
    rw [List.foldlM_cons] at h
    obtain ⟨next, hnext, h⟩ := of_bind h
    exact ih (hstep hb hnext) h

theorem foldlM_preserves_some {P : β → Prop} {f : β → α → Option β}
    (hstep : ∀ {b a c}, P b → f b a = some c → P c) {xs : List α} {b c : β} (hb : P b)
    (h : xs.foldlM f b = some c) : P c := by
  induction xs generalizing b with
  | nil =>
    obtain rfl := Option.some.inj h
    exact hb
  | cons x rest ih =>
    rw [List.foldlM_cons] at h
    obtain ⟨next, hnext, h⟩ := Option.bind_eq_some_iff.mp h
    exact ih (hstep hb hnext) h

theorem mapM_eq_some_of_forall₂ {f : α → Option β} {xs : List α} {ys : List β}
    (h : List.Forall₂ (fun x y => f x = some y) xs ys) : xs.mapM f = some ys := by
  induction h with
  | nil => rfl
  | cons hfirst _ ih => simp [hfirst, ih]

theorem of_map {x : Except ε α} {f : α → β} {b : β} (h : x.map f = .ok b) :
    ∃ a, x = .ok a ∧ f a = b := by
  match x with
  | .ok a => exact ⟨a, rfl, Except.ok.inj h⟩
  | .error _ => cases h

theorem forall₂_of_mapM {f : α → Except ε β} {xs : List α} {ys : List β}
    (h : xs.mapM f = .ok ys) : List.Forall₂ (fun x y => f x = .ok y) xs ys := by
  induction xs generalizing ys with
  | nil =>
    obtain rfl := Except.ok.inj h
    exact .nil
  | cons x rest ih =>
    rw [List.mapM_cons] at h
    obtain ⟨y, hy, h⟩ := of_bind h
    obtain ⟨ys, hys, h⟩ := of_bind h
    obtain rfl := Except.ok.inj h
    exact .cons hy (ih hys)

theorem exists_of_mem_mapM {f : α → Except ε β} {xs : List α} {ys : List β}
    (h : xs.mapM f = .ok ys) {y : β} (hy : y ∈ ys) : ∃ x ∈ xs, f x = .ok y := by
  have hsteps := forall₂_of_mapM h
  clear h
  induction hsteps with
  | nil => cases hy
  | cons hstep _ ih =>
    rcases List.mem_cons.mp hy with rfl | hy
    · exact ⟨_, List.mem_cons_self, hstep⟩
    · obtain ⟨x, hx, hxy⟩ := ih hy
      exact ⟨x, List.mem_cons_of_mem _ hx, hxy⟩

theorem exists_mem_of_mapM {f : α → Except ε β} {xs : List α} {ys : List β}
    (h : xs.mapM f = .ok ys) {x : α} (hx : x ∈ xs) : ∃ y ∈ ys, f x = .ok y := by
  have hsteps := forall₂_of_mapM h
  clear h
  induction hsteps with
  | nil => cases hx
  | cons hstep _ ih =>
    rcases List.mem_cons.mp hx with rfl | hx
    · exact ⟨_, List.mem_cons_self, hstep⟩
    · obtain ⟨y, hy, hxy⟩ := ih hx
      exact ⟨y, List.mem_cons_of_mem _ hy, hxy⟩

theorem exists_mapM {f : α → Except ε β} {xs : List α} (h : ∀ x ∈ xs, ∃ y, f x = .ok y) :
    ∃ ys, xs.mapM f = .ok ys := by
  induction xs with
  | nil => exact ⟨[], rfl⟩
  | cons x rest ih =>
    obtain ⟨⟨y, hy⟩, hrest⟩ := List.forall_mem_cons.mp h
    obtain ⟨ys, hys⟩ := ih hrest
    exact ⟨y :: ys, by rw [List.mapM_cons, hy, hys]; rfl⟩

theorem mapM_append {f : α → Except ε β} {xs xs' : List α} {ys ys' : List β}
    (h : xs.mapM f = .ok ys) (h' : xs'.mapM f = .ok ys') :
    (xs ++ xs').mapM f = .ok (ys ++ ys') := by
  rw [List.mapM_append, h, h']
  rfl

theorem mapM_append_of_error {f : α → Except ε β} {xs : List α} {e : ε}
    (h : xs.mapM f = .error e) (xs' : List α) : (xs ++ xs').mapM f = .error e := by
  rw [List.mapM_append, h]
  rfl

/-! ### Computations that differ in what does not matter -/

/-- Two runs of a step that agree under `view`, followed by steps that make no difference between
results that look alike. -/
theorem map_bind_congr {γ δ : Type} {view : α → δ} {look : β → γ} {x x' : Except ε α}
    {next next' : α → Except ε β} (hx : x.map view = x'.map view)
    (hnext : ∀ a a', view a = view a' → (next a).map look = (next' a').map look) :
    (x >>= next).map look = (x' >>= next').map look := by
  match x, x' with
  | .ok a, .ok a' => exact hnext a a' (Except.ok.inj hx)
  | .error e, .error e' => exact congrArg Except.error (Except.error.inj hx)
  | .ok _, .error _ => cases hx
  | .error _, .ok _ => cases hx

theorem map_bind_congr_right {γ : Type} {look : β → γ} {x : Except ε α}
    {next next' : α → Except ε β} (h : ∀ a, (next a).map look = (next' a).map look) :
    (x >>= next).map look = (x >>= next').map look := by
  match x with
  | .ok a => exact h a
  | .error _ => rfl

theorem map_mapM_congr {γ : Type} {view : β → γ} {f f' : α → Except ε β} {xs : List α}
    (h : ∀ x ∈ xs, (f x).map view = (f' x).map view) :
    (xs.mapM f).map (List.map view) = (xs.mapM f').map (List.map view) := by
  induction xs with
  | nil => rfl
  | cons x rest ih =>
    rw [List.mapM_cons, List.mapM_cons]
    refine map_bind_congr (h x List.mem_cons_self) fun y y' hy => ?_
    refine map_bind_congr (ih fun x' hx' => h x' (List.mem_cons_of_mem _ hx')) fun ys ys' hys => ?_
    change Except.ok _ = Except.ok _
    rw [List.map_cons, List.map_cons, hy, hys]

/-- Two outcomes that are the same error, or results that belong together. -/
inductive Related (R : α → β → Prop) : Except ε α → Except ε β → Prop
  | ok {a : α} {b : β} (h : R a b) : Related R (.ok a) (.ok b)
  | error (e : ε) : Related R (.error e) (.error e)

theorem Related.foldlM {R : α → β → Prop} {τ : Type} {f : α → τ → Except ε α}
    {g : β → τ → Except ε β} (hstep : ∀ a b t, R a b → Related R (f a t) (g b t)) {a : α} {b : β}
    (h : R a b) (ts : List τ) : Related R (ts.foldlM f a) (ts.foldlM g b) := by
  induction ts generalizing a b with
  | nil => exact .ok h
  | cons t rest ih =>
    rw [List.foldlM_cons, List.foldlM_cons]
    have hfirst := hstep a b t h
    generalize f a t = x at hfirst ⊢
    generalize g b t = y at hfirst ⊢
    cases hfirst with
    | ok hnext => exact ih hnext
    | error e => exact .error e

end CodeAudit.Success
