namespace CodeAudit.Text

/-- The pieces between the characters of a class; always at least one piece. -/
def splitList (p : Char → Bool) : List Char → List (List Char)
  | [] => [[]]
  | c :: cs =>
    if p c then [] :: splitList p cs
    else
      match splitList p cs with
      | [] => [[c]]
      | piece :: rest => (c :: piece) :: rest

def splitOnChar (sep : Char) (s : String) : List String :=
  (splitList (· == sep) s.toList).map String.ofList

def dropLead? : List Char → List Char → Option (List Char)
  | [], cs => some cs
  | _ :: _, [] => none
  | l :: lead, c :: cs => if l = c then dropLead? lead cs else none

def stripLead? (lead s : String) : Option String :=
  (dropLead? lead.toList s.toList).map String.ofList

theorem length_le_of_dropLead? {lead cs rest : List Char} (h : dropLead? lead cs = some rest) :
    rest.length + lead.length = cs.length := by
  induction lead generalizing cs with
  | nil => simp_all [dropLead?]
  | cons l lead ih =>
    cases cs with
    | nil => simp [dropLead?] at h
    | cons c cs =>
      simp only [dropLead?] at h
      split at h
      · have := ih h
        simp only [List.length_cons]
        omega
      · simp at h

theorem dropLead?_eq_some_iff {lead cs rest : List Char} :
    dropLead? lead cs = some rest ↔ cs = lead ++ rest := by
  induction lead generalizing cs with
  | nil => simp [dropLead?]
  | cons l lead ih =>
    cases cs with
    | nil => simp [dropLead?]
    | cons c cs =>
      rw [dropLead?, List.cons_append, List.cons.injEq, ← ih]
      by_cases h : l = c
      · simp [h]
      · simp [h, Ne.symm h]

theorem stripLead?_eq_some_iff {lead s rest : String} :
    stripLead? lead s = some rest ↔ s = lead ++ rest := by
  rw [stripLead?, Option.map_eq_some_iff]
  constructor
  · rintro ⟨cs, hcs, rfl⟩
    rw [← String.toList_inj, String.toList_append, String.toList_ofList]
    exact dropLead?_eq_some_iff.mp hcs
  · rintro rfl
    exact ⟨rest.toList, dropLead?_eq_some_iff.mpr String.toList_append, String.ofList_toList⟩

/-- Every occurrence of a non-empty `old`, found from the left without overlap, becomes `new`. -/
def replaceList (old new : List Char) (cs : List Char) : List Char :=
  match cs with
  | [] => []
  | c :: rest =>
    match old with
    | [] => c :: rest
    | o :: os =>
      match _h : dropLead? (o :: os) (c :: rest) with
      | some after => new ++ replaceList (o :: os) new after
      | none => c :: replaceList (o :: os) new rest
termination_by cs.length
decreasing_by
  · have := length_le_of_dropLead? _h
    simp only [List.length_cons] at *
    omega
  · simp

def replaceAll (old new s : String) : String :=
  String.ofList (replaceList old.toList new.toList s.toList)

/-- Cuts at the first character of a class; the character itself is left out. -/
def cutAt? (p : Char → Bool) (cs : List Char) : Option (List Char × List Char) :=
  match cs.dropWhile (fun c => !p c) with
  | [] => none
  | _ :: rest => some (cs.takeWhile (fun c => !p c), rest)

def occursIn (part : List Char) : List Char → Bool
  | [] => part.isEmpty
  | c :: cs => (dropLead? part (c :: cs)).isSome || occursIn part cs

def padRight (width : Nat) (s : String) : String :=
  s ++ String.ofList (List.replicate (width - s.length) ' ')

def padLeft (width : Nat) (s : String) : String :=
  String.ofList (List.replicate (width - s.length) ' ') ++ s

end CodeAudit.Text
