namespace BlockMachine.Text

def padRight (width : Nat) (text : String) : String :=
  text ++ String.ofList (List.replicate (width - text.length) ' ')

theorem toList_padRight (width : Nat) (text : String) :
    (padRight width text).toList =
      text.toList ++ List.replicate (width - text.length) ' ' := by
  simp [padRight]

/-- A short text fills the column, and a longer one is not cut. -/
theorem length_padRight (width : Nat) (text : String) :
    (padRight width text).length = max width text.length := by
  rw [← String.length_toList, toList_padRight, List.length_append, List.length_replicate,
    String.length_toList]
  omega

def bracketed (values : List Int) : String :=
  "[" ++ String.intercalate ", " (values.map toString) ++ "]"

end BlockMachine.Text
