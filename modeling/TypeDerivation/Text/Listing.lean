namespace TypeDerivation.Text

/-- The entries one after the other, with a comma and a space between neighbours. -/
def listing : List String → String
  | [] => ""
  | [s] => s
  | s :: t :: rest => s ++ ", " ++ listing (t :: rest)

/-- A listing in round brackets; a tuple of one entry keeps a comma after it. -/
def tupled (entries : List String) : String :=
  "(" ++ listing entries ++ (if entries.length = 1 then ",)" else ")")

end TypeDerivation.Text
