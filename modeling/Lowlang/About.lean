set_option autoImplicit false

/-!
# About the program

What the program calls itself.
-/

namespace Lowlang.About

/-- The name of the command; configuration is kept in directories of this name. -/
def name : String := "ilc"

/-- The version printed on request. -/
def version : String := "0.1.0"

/-- What the program is. -/
def description : String := "Intermediate language compiler"

/-- The people behind the program, with their addresses. -/
def authors : List (String × String) := [("ardnew", "andrew@ardnew.com")]

end Lowlang.About
