import Lisplet.Text.Ranges
import Lisplet.Text.Visible.Table

/-!
Characters that a reader can tell apart on sight.

A text for diagnosis shows such a character as it is and names every other one by its code point. The plain blank is
the only separator that is shown. An accent is named even where it follows a letter, so that a composed letter and
its parts look different. A filler is named although it is a letter, and a sound mark that is a letter with a place
of its own is shown.
-/
namespace Lisplet

/-- Whether a character has a shape of its own, which is not drawn on the character before it. -/
def isVisible (c : Char) : Bool :=
  !inRanges hiddenRanges c && !inRanges attachedRanges c && !inRanges undrawnRanges c

end Lisplet
