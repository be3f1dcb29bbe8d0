import CodeAudit.Regex.Match

namespace CodeAudit.Regex

/-! ### Closing a set of positions under a step -/

theorem mem_addNew {p : Nat} {known ps : List Nat} : p ∈ addNew known ps ↔ p ∈ known ∨ p ∈ ps := by
  unfold addNew
  induction ps generalizing known with
  | nil => simp
  | cons q ps ih =>
    rw [List.foldl_cons, ih, List.mem_cons]
    by_cases hq : known.contains q = true
    · have hmem : q ∈ known := by simpa using hq
      rw [if_pos hq]
      constructor
      · rintro (h | h)
        · exact .inl h
        · exact .inr (.inr h)
      · rintro (h | rfl | h)
        · exact .inl h
        · exact .inl hmem
        · exact .inr h
    · rw [if_neg hq, List.mem_cons, or_assoc, or_left_comm]

theorem subset_close (step : List Nat → List Nat) (rounds : Nat) {known frontier : List Nat}
    {p : Nat} (h : p ∈ known) : p ∈ close step rounds known frontier := by
  induction rounds generalizing known frontier with
  | zero => exact h
  | succ rounds ih =>
    unfold close
    dsimp only
    split
    · exact h
    · exact ih (mem_addNew.mpr (.inl h))

/-- Positions one after the other, each a step from the one before, are all found within as many
rounds. What carries the induction is that only the frontier has steps still to be taken. -/
theorem mem_close {step : List Nat → List Nat}
    (hmono : ∀ {ps : List Nat} {p q : Nat}, p ∈ ps → q ∈ step [p] → q ∈ step ps) {rounds : Nat}
    {known frontier : List Nat} (hknown : ∀ p ∈ known, p ∈ frontier ∨ ∀ q ∈ step [p], q ∈ known)
    {i n : Nat} (hi : i ∈ known) (hn : n ≤ rounds) (h : ∀ m < n, i + m + 1 ∈ step [i + m]) :
    i + n ∈ close step rounds known frontier := by
  induction rounds generalizing known frontier i n with
  | zero =>
    obtain rfl : n = 0 := by omega
    exact hi
  | succ rounds ih =>
    have hfresh : ∀ p ∈ known, ∀ q ∈ step [p], q ∈ known ∨
        q ∈ (step frontier).filter fun p => !known.contains p := by
      intro p hp q hq
      by_cases hqk : q ∈ known
      · exact .inl hqk
      · rcases hknown p hp with hfrontier | hall
        · exact .inr (by simp [hmono hfrontier hq, hqk])
        · exact absurd (hall q hq) hqk
    unfold close
    dsimp only
    split
    next hempty =>
      -- Nothing is new, so the known positions are closed under the step.
      rw [List.isEmpty_iff.mp hempty] at hfresh
      clear hn
      induction n with
      | zero => exact hi
      | succ n ihn =>
        have hprev : i + n ∈ known := ihn fun m hm => h m (by omega)
        have hnext := hfresh (i + n) hprev (i + n + 1) (h n (by omega))
        simpa [Nat.add_assoc] using hnext
    next =>
      cases n with
      | zero => exact subset_close _ _ (mem_addNew.mpr (.inl hi))
      | succ n =>
        have hnext : i + 1 ∈ known ∨ i + 1 ∈ (step frontier).filter fun p => !known.contains p :=
          hfresh i hi (i + 1) (h 0 (by omega))
        have hfound : i + 1 + n ∈ close step rounds
            (addNew known ((step frontier).filter fun p => !known.contains p))
            (addNew [] ((step frontier).filter fun p => !known.contains p)) := by
          apply ih _ (mem_addNew.mpr hnext) (by omega)
          · intro m hm
            have hstep := h (m + 1) (by omega)
            rwa [show i + (m + 1) = i + 1 + m by omega] at hstep
          · intro p hp
            rcases mem_addNew.mp hp with hp | hp
            · exact .inr fun q hq => mem_addNew.mpr (hfresh p hp q hq)
            · exact .inl (mem_addNew.mpr (.inr hp))
        rwa [show i + (n + 1) = i + 1 + n by omega]

/-! ### Sequences -/

theorem run_seqAll (text : Array Char) (rs : List Regex) (ps : List Nat) :
    run text (seqAll rs) ps = rs.foldl (fun ps r => run text r ps) ps := by
  induction rs generalizing ps with
  | nil => rfl
  | cons r rs ih =>
    cases rs with
    | nil => rfl
    | cons r' rs => exact ih (run text r ps)

/-- The expressions, one after the other, match a piece of text wherever it stands. -/
def Consume (rs : List Regex) (v : List Char) : Prop :=
  ∀ u w ps, u.length ∈ ps →
    u.length + v.length ∈ rs.foldl (fun ps r => run (u ++ (v ++ w)).toArray r ps) ps

theorem consume_nil : Consume [] [] := fun _ _ _ hps => hps

theorem Consume.append {rs rs' : List Regex} {v v' : List Char} (h : Consume rs v)
    (h' : Consume rs' v') : Consume (rs ++ rs') (v ++ v') := by
  intro u w ps hps
  have hfirst := h u (v' ++ w) ps hps
  have hsecond := h' (u ++ v) w _ (by rw [List.length_append]; exact hfirst)
  rw [List.foldl_append]
  simpa [Nat.add_assoc] using hsecond

theorem mem_run_set {text : Array Char} {s : CharSet} {ps : List Nat} {p : Nat} (hp : p ∈ ps)
    (h : after text p s = true) : p + 1 ∈ run text (set s) ps := by
  unfold run
  rw [List.mem_filterMap]
  exact ⟨p, hp, by rw [if_pos h]⟩

theorem mem_run_set_mono {text : Array Char} {s : CharSet} {ps : List Nat} {p q : Nat}
    (hp : p ∈ ps) (h : q ∈ run text (set s) [p]) : q ∈ run text (set s) ps := by
  simp only [run, List.mem_filterMap, List.mem_singleton] at h ⊢
  obtain ⟨_, rfl, hq⟩ := h
  exact ⟨_, hp, hq⟩

theorem consume_star_set {s : CharSet} {v : List Char} (h : ∀ c ∈ v, s.contains c = true) :
    Consume [star (set s)] v := by
  intro u w ps hps
  have hafter : ∀ m < v.length, after (u ++ (v ++ w)).toArray (u.length + m) s = true := by
    intro m hm
    have hchar : (u ++ (v ++ w)).toArray[u.length + m]? = some v[m] := by
      rw [List.getElem?_toArray, List.getElem?_append_right (by omega), Nat.add_sub_cancel_left,
        List.getElem?_append_left hm, List.getElem?_eq_getElem hm]
    unfold after
    rw [hchar]
    exact h _ (List.getElem_mem hm)
  apply mem_close mem_run_set_mono
  · exact fun p hp => .inl hp
  · exact mem_addNew.mpr (.inr hps)
  · simp only [List.size_toArray, List.length_append]
    omega
  · exact fun m hm => mem_run_set List.mem_cons_self (hafter m hm)

theorem contains_single (c : Char) : (CharSet.single c).contains c = true := by
  simp [CharSet.contains, CharSet.single]

theorem consume_char (c : Char) : Consume [char c] [c] := by
  intro u w ps hps
  refine mem_run_set hps ?_
  simp [after, contains_single]

theorem consume_chars (cs : List Char) : Consume (cs.map char) cs := by
  induction cs with
  | nil => exact consume_nil
  | cons c cs ih => exact (consume_char c).append ih

def whole (rs : List Regex) : Regex :=
  seqAll [assert .textStart, seqAll rs, assert .textEnd]

theorem matchesIn_whole {rs : List Regex} {s : String} (h : Consume rs s.toList) :
    (whole rs).matchesIn s = true := by
  have hend : s.toList.length ∈ run s.toList.toArray (whole rs)
      (List.range (s.toList.toArray.size + 1)) := by
    have hbody := h [] [] (run s.toList.toArray (assert .textStart)
      (List.range (s.toList.toArray.size + 1))) (by simp [run, Assertion.holds])
    rw [← run_seqAll] at hbody
    simpa [whole, seqAll, run, Assertion.holds] using hbody
  unfold matchesIn
  dsimp only
  cases hrun : run s.toList.toArray (whole rs) (List.range (s.toList.toArray.size + 1)) with
  | nil =>
    rw [hrun] at hend
    cases hend
  | cons p ps => rfl

end CodeAudit.Regex
