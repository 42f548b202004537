/-! Text in columns. Widths count characters, and what is wider than its column is not cut. -/
namespace Estate.Command

/-- The text with blanks after it up to a width. -/
def padRight (width : Nat) (s : String) : String :=
  String.ofList (s.toList ++ List.replicate (width - s.length) ' ')

/-- Cells with their widths, with a blank after each of them, and a last cell. -/
def row (cells : List (Nat × String)) (last : String) : String :=
  String.join (cells.map fun (width, s) => padRight width s ++ " ") ++ last

def rule : String := String.ofList (List.replicate 86 '-')

def unlines (lines : List String) : String := String.join (lines.map (· ++ "\n"))

theorem length_padRight (width : Nat) (s : String) :
    (padRight width s).length = max s.length width := by
  simp [padRight]
  omega

end Estate.Command
