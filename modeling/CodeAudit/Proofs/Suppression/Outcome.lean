import CodeAudit.Proofs.Suppression.Surroundings
import CodeAudit.Proofs.Tree.Calls
import CodeAudit.Proofs.Tree.Outcome

namespace CodeAudit

namespace Suppressor

/-- Whether a node around the finding passes a test, looked for to the end. -/
def anyAround (p : NodeId → Bool) (f : Finding) (t : Tree) : Option Bool :=
  (t.searchUp p (t.present (f.anchor t))).map Option.isSome

/-- Whether the finding is to be dropped, with climbs to the end. -/
def claimsToEnd (s : Suppressor) (f : Finding) (t : Tree) : Option Bool :=
  match s with
  | attachedReason => some !f.suppressReasons.isEmpty
  | marker targets => anyAround (targets.matchedOn t) f t
  | markedWith names => anyAround (marksNode names t) f t
  | insideFunction names => anyAround (namesNode names t) f t
  | supplied _ test => some (test f t)

variable {f : Finding} {t : Tree}

theorem anyAround_eq (h : t.Loose) (p : NodeId → Bool) (hid : f.anchor t < t.size)
    (hground : t.Grounded (f.anchor t)) :
    anyAround p f t = some ((t.ancestors (f.anchor t)).any p) := by
  rw [anyAround, Tree.present_eq hid, h.searchUp_eq p hid hground, Option.map_some,
    List.isSome_find?]

/-- Where a climb never ends, a search ends by finding something or not at all. -/
theorem anyAround_of_not_grounded (h : t.Loose) (p : NodeId → Bool) (hid : f.anchor t < t.size)
    (hground : ¬ t.Grounded (f.anchor t)) :
    anyAround p f t = none ∧ (∀ a, t.Within a (f.anchor t) → p a = false) ∨
      anyAround p f t = some true ∧ ∃ a, t.Within a (f.anchor t) ∧ p a = true := by
  have hends := h.searchUp_isSome_iff p hid
  rw [anyAround, Tree.present_eq hid]
  cases hsearch : t.searchUp p (some (f.anchor t)) with
  | none =>
    have hnone : ¬ (t.Grounded (f.anchor t) ∨ ∃ a, t.Within a (f.anchor t) ∧ p a = true) := by
      rw [← hends, hsearch]
      decide
    refine .inl ⟨rfl, fun a ha => ?_⟩
    rw [← Bool.not_eq_true]
    exact fun hpa => hnone (.inr ⟨a, ha, hpa⟩)
  | some found =>
    rcases Tree.searchEnd_of_searchUp hsearch with ⟨-, htop⟩ | ⟨a, hfound, ha, hpa⟩
    · exact absurd htop hground
    · refine .inr ⟨?_, a, ha, hpa⟩
      rw [hfound]
      rfl

theorem claimsToEnd_eq (h : t.Loose) (s : Suppressor) (hid : f.anchor t < t.size)
    (hground : t.Grounded (f.anchor t)) : s.claimsToEnd f t = some (s.claims f t) := by
  cases s with
  | attachedReason => rfl
  | marker targets => exact anyAround_eq h _ hid hground
  | markedWith names => exact anyAround_eq h _ hid hground
  | insideFunction names => exact anyAround_eq h _ hid hground
  | supplied name test => rfl

end Suppressor

namespace Resolver

/-- The first suppressor that claims a finding; the ones behind it are not asked. -/
def claimant (f : Finding) (t : Tree) : List Suppressor → Option (Option Suppressor)
  | [] => some none
  | s :: rest => do if ← s.claimsToEnd f t then some (some s) else claimant f t rest

/-- What becomes of a finding, with climbs to the end. -/
def decideToEnd (r : Resolver) (f : Finding) (t : Tree) : Option Decision := do
  match ← claimant f t r.suppressors with
  | none => return .keep
  | some s => return if r.suppressible then .suppressed s.name else .blocked (r.blockedWarning s f)

variable {f : Finding} {t : Tree}

theorem claimant_eq (h : t.Loose) (hid : f.anchor t < t.size)
    (hground : t.Grounded (f.anchor t)) (ss : List Suppressor) :
    claimant f t ss = some (ss.find? fun s => s.claims f t) := by
  induction ss with
  | nil => rfl
  | cons s rest ih =>
    rw [claimant, s.claimsToEnd_eq h hid hground, ih, List.find?_cons]
    cases s.claims f t <;> rfl

theorem decideToEnd_eq (h : t.Loose) (r : Resolver) (hid : f.anchor t < t.size)
    (hground : t.Grounded (f.anchor t)) : r.decideToEnd f t = some (r.decide f t) := by
  rw [decideToEnd, claimant_eq h hid hground, decide]
  cases r.suppressors.find? fun s => s.claims f t <;> rfl

theorem isSome_decideToEnd (r : Resolver) :
    (r.decideToEnd f t).isSome = (claimant f t r.suppressors).isSome := by
  rw [decideToEnd]
  cases claimant f t r.suppressors with
  | none => rfl
  | some s => cases s <;> rfl

theorem suppressors_foldl_withSuppressor (r : Resolver) (extra : List Suppressor) :
    (extra.foldl withSuppressor r).suppressors = r.suppressors ++ extra := by
  induction extra generalizing r with
  | nil => simp
  | cons s rest ih => simp [ih, withSuppressor]

/-- On a finding whose node is not grounded a rule's resolver decides if the rule gave a reason or a
marker on the way up addresses it, and only then: otherwise the search for a marker never ends. -/
theorem decideToEnd_isSome_iff {d : Descriptor} {config : Config} {r : Resolver}
    (hr : ofRule d config = .ok r) (extra : List Suppressor) (h : t.Loose)
    (hid : f.anchor t < t.size) (hground : ¬ t.Grounded (f.anchor t)) :
    ((extra.foldl withSuppressor r).decideToEnd f t).isSome = true ↔
      f.suppressReasons ≠ [] ∨
        ∃ a, t.Within a (f.anchor t) ∧ (MarkerTargets.ofRule d).matchedOn t a = true := by
  obtain ⟨marked, functions, -, -, -, hsuppressors⟩ := of_ofRule hr
  have hfirst : (extra.foldl withSuppressor r).suppressors =
      .attachedReason :: .marker (.ofRule d) ::
        ((if marked.isEmpty then [] else [.markedWith marked]) ++
          (if functions.isEmpty then [] else [.insideFunction functions]) ++ extra) := by
    rw [suppressors_foldl_withSuppressor, hsuppressors]
    simp [suppressorsOf]
  rw [isSome_decideToEnd, hfirst, claimant, claimant, Suppressor.claimsToEnd,
    Suppressor.claimsToEnd]
  cases hreasons : f.suppressReasons with
  | cons reason rest => simp
  | nil =>
    rcases Suppressor.anyAround_of_not_grounded h ((MarkerTargets.ofRule d).matchedOn t) hid hground
      with ⟨hsearch, hnone⟩ | ⟨hsearch, hfound⟩
    · simpa [hsearch] using hnone
    · simpa [hsearch] using hfound

end Resolver

namespace Tree

variable {path : Path} {span : Span} {calls : List Call} {t : Tree}

/-- In a tree that was built with any numbers that building lets through, climbing from a node comes
to an end, and so does all that climbs, if no node around is its own parent. Otherwise the climb
takes any number of steps, there is no signature, and a search or a decision comes to an end only
by finding what it is after. All climbs come to an end if no call has named the number that it was
about to return, and only then. -/
theorem climbs_end_iff_no_call_names_itself (h : build? path span calls = some t) :
    (∀ id : Nat, id < t.size → t.Grounded id →
      t.climbToEnd (some id) = some (t.ancestors id) ∧
      t.enclosingToEnd id = some (t.enclosingDeclaration id) ∧
      t.signatureToEnd id = some (t.signature id) ∧
      ∀ (r : Resolver) (f : Finding), f.anchor t = id →
        r.decideToEnd f t = some (r.decide f t)) ∧
    (∀ id : Nat, id < t.size → ¬ t.Grounded id →
      (∀ steps, (t.climb steps (some id)).length = steps) ∧
      ((t.enclosingToEnd id).isSome = true ↔
        ∃ a, t.Within a id ∧ t.kindIs NodeKind.isDeclaration a = true) ∧
      t.signatureToEnd id = none ∧
      ∀ (d : Descriptor) (config : Config) (r : Resolver) (extra : List Suppressor) (f : Finding),
        Resolver.ofRule d config = .ok r → f.anchor t = id →
        (((extra.foldl Resolver.withSuppressor r).decideToEnd f t).isSome = true ↔
          f.suppressReasons ≠ [] ∨
            ∃ a, t.Within a id ∧ (MarkerTargets.ofRule d).matchedOn t a = true)) ∧
    ((∀ id : Nat, id < t.size → (t.climbToEnd (some id)).isSome = true) ↔
      ¬ NamesItself path span calls) := by
  have hloose := loose_of_build? h
  have hroot := grounded_rootId h
  refine ⟨fun id hid hground => ?_, fun id hid hground => ?_, ?_⟩
  · refine ⟨hloose.climbToEnd_eq hid hground, hloose.enclosingToEnd_eq hid hground,
      hloose.signatureToEnd_eq hroot hid hground, ?_⟩
    rintro r f rfl
    exact r.decideToEnd_eq hloose hid hground
  · refine ⟨climbToEnd_eq_none_iff.mp (climbToEnd_eq_none hground), ?_,
      signatureToEnd_eq_none hid hground, ?_⟩
    -- No climb ends here, so the search only ends by finding a declaration.
    · rw [enclosingToEnd, present_eq hid, hloose.searchUp_isSome_iff _ hid]
      exact or_iff_right hground
    · rintro d config r extra f hr rfl
      exact Resolver.decideToEnd_isSome_iff hr extra hloose hid hground
  · rw [← forall_grounded_iff h]
    refine forall_congr' fun id => forall_congr' fun hid => ⟨fun hsome => ?_, fun hground => ?_⟩
    · obtain ⟨ids, hids⟩ := Option.isSome_iff_exists.mp hsome
      exact grounded_of_climbToEnd hids
    · rw [hloose.climbToEnd_eq hid hground]
      rfl

/-- A class below the node it is about to become. -/
def selfOwned : List Call := [.add 1 .classType (some "A") {}]

theorem climbs_end_iff_no_call_names_itself_selfOwned :
    ∃ t, build? ⟨"A.kt"⟩ {} selfOwned = some t ∧ t.size = 2 ∧
      (∀ steps, (t.climb steps (some 1)).length = steps) ∧ t.signatureToEnd 1 = none ∧
      t.enclosingToEnd 1 = some (some 1) ∧
      Resolver.ofRule GeneratedClass.descriptor GeneratedClass.config =
        .ok GeneratedClass.resolver ∧
      ∀ f : Finding, f.anchor t = 1 → f.suppressReasons = [] →
        GeneratedClass.resolver.decideToEnd f t = none := by
  obtain ⟨t, hbuild, hsize, hown, hclass, hmarks⟩ :
      ∃ t, build? ⟨"A.kt"⟩ {} selfOwned = some t ∧ t.size = 2 ∧ t.parent? 1 = some 1 ∧
        t.kindIs NodeKind.isDeclaration 1 = true ∧ Marker.argumentsOn t 1 = [] :=
    ⟨_, rfl, rfl, rfl, rfl, rfl⟩
  have hid : 1 < t.size := by omega
  have hground : ¬ t.Grounded 1 := fun h => h 1 .here hown
  -- Around the node that is its own parent there is nothing but itself.
  have halone : ∀ a n, t.Within a n → n = 1 → a = 1 := by
    intro a n ha
    induction ha with
    | here => exact id
    | inside hp _ ih =>
      rintro rfl
      exact ih (Option.some.inj (hp.symm.trans hown))
  obtain ⟨-, hendless, -⟩ := climbs_end_iff_no_call_names_itself hbuild
  obtain ⟨hclimb, -, hsignature, hdecide⟩ := hendless 1 hid hground
  have hofRule : Resolver.ofRule GeneratedClass.descriptor GeneratedClass.config =
      .ok GeneratedClass.resolver := rfl
  refine ⟨t, hbuild, hsize, hclimb, hsignature, ?_, hofRule, ?_⟩
  · rw [enclosingToEnd, present_eq hid, searchUp_some _ hid, if_pos hclass]
  · intro f hanchor hreasons
    rw [← Option.not_isSome_iff_eq_none]
    intro hsome
    rcases (hdecide _ _ _ [] f hofRule hanchor).mp hsome with hreason | ⟨a, ha, hmatched⟩
    · exact hreason hreasons
    · rw [halone a 1 ha rfl, MarkerTargets.matchedOn, hmarks] at hmatched
      cases hmatched

end Tree

end CodeAudit
