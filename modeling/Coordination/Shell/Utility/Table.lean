import Coordination.Shell.Utility.Lines
import Coordination.Shell.Utility.Place

/-!
# The utilities

The utilities by the names of their programs.
-/

namespace Coordination.Shell

namespace Utility

/-- The utilities by their names. -/
def table : List (String × Utility) :=
  [("[", test true), ("basename", basename), ("cat", cat), ("chmod", chmod), ("cmp", cmp),
    ("cp", cp), ("cut", cut), ("dirname", dirname), ("echo", echo), ("false", fail),
    ("head", head), ("ls", ls), ("mkdir", mkdir), ("mv", mv), ("nl", nl), ("paste", paste),
    ("printenv", printenv), ("printf", printf), ("pwd", pwd), ("rev", rev), ("rm", rm),
    ("rmdir", rmdir), ("seq", seq), ("sleep", sleep), ("sort", sort), ("tac", tac), ("tail", tail),
    ("tee", tee), ("test", test false), ("touch", touch), ("tr", tr), ("true", succeed),
    ("uniq", uniq), ("wc", wc), ("yes", yes)]

end Utility

end Coordination.Shell
