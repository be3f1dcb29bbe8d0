namespace CodeAudit.Table

variable {κ ν : Type}

def update (order : κ → κ → Ordering) (k : κ) (f : Option ν → ν) : List (κ × ν) → List (κ × ν)
  | [] => [(k, f none)]
  | (k', v) :: rest =>
    match order k k' with
    | .lt => (k, f none) :: (k', v) :: rest
    | .eq => (k', f (some v)) :: rest
    | .gt => (k', v) :: update order k f rest

def get? (order : κ → κ → Ordering) (k : κ) (table : List (κ × ν)) : Option ν :=
  (table.find? fun e => order k e.1 == .eq).map (·.2)

def insert (order : κ → κ → Ordering) (k : κ) (v : ν) : List (κ × ν) → List (κ × ν) :=
  update order k fun _ => v

end CodeAudit.Table
