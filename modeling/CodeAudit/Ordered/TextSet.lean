namespace CodeAudit

namespace TextSet

/-- Puts a text into its place in an ascending list, unless it is there. -/
def insertInto (s : String) : List String → List String
  | [] => [s]
  | t :: rest =>
    if s < t then s :: t :: rest
    else if t < s then t :: insertInto s rest
    else t :: rest

theorem mem_insertInto {s x : String} {l : List String} :
    x ∈ insertInto s l ↔ x = s ∨ x ∈ l := by
  induction l with
  | nil => simp [insertInto]
  | cons t rest ih =>
    unfold insertInto
    split
    · simp
    · split
      · simp only [List.mem_cons, ih]
        exact ⟨fun h => h.elim (.inr ∘ .inl) (·.elim .inl (.inr ∘ .inr)),
          fun h => h.elim (.inr ∘ .inl) (·.elim .inl (.inr ∘ .inr))⟩
      · rename_i hst hts
        have : s = t := String.le_antisymm (String.not_lt.1 hts) (String.not_lt.1 hst)
        simp [this]

theorem pairwise_insertInto {s : String} {l : List String} (h : l.Pairwise (· < ·)) :
    (insertInto s l).Pairwise (· < ·) := by
  induction l with
  | nil => simp [insertInto]
  | cons t rest ih =>
    have ⟨ht, hrest⟩ := List.pairwise_cons.1 h
    unfold insertInto
    split
    · rename_i hst
      refine List.pairwise_cons.2 ⟨fun x hx => ?_, h⟩
      rcases List.mem_cons.1 hx with rfl | hx
      · exact hst
      · exact String.lt_trans hst (ht x hx)
    · split
      · rename_i hts
        refine List.pairwise_cons.2 ⟨fun x hx => ?_, ih hrest⟩
        rcases mem_insertInto.1 hx with rfl | hx
        · exact hts
        · exact ht x hx
      · exact h

end TextSet

structure TextSet where
  toList : List String
  ascending : toList.Pairwise (· < ·)
deriving DecidableEq, Repr

namespace TextSet

def empty : TextSet := ⟨[], .nil⟩

instance : Inhabited TextSet := ⟨empty⟩

def insert (s : String) (ts : TextSet) : TextSet :=
  ⟨insertInto s ts.toList, pairwise_insertInto ts.ascending⟩

def contains (ts : TextSet) (s : String) : Bool := ts.toList.contains s

def isEmpty (ts : TextSet) : Bool := ts.toList.isEmpty

def size (ts : TextSet) : Nat := ts.toList.length

def ofList (l : List String) : TextSet := l.foldl (fun ts s => ts.insert s) empty

theorem contains_insert (ts : TextSet) (s x : String) :
    (ts.insert s).contains x = (x == s || ts.contains x) := by
  rw [Bool.eq_iff_iff]
  simp [contains, insert, mem_insertInto]

end TextSet

end CodeAudit
