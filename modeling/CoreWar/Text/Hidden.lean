/-
# Hidden characters

A character is hidden when a reader sees nothing of it where it stands by
itself: controls, format marks, blanks and line separators other than the
space, fillers and other characters that are to be ignored when they cannot be
shown, private characters, extending characters and unassigned codes.

Key definitions: `Text.isHidden`.
-/
import CoreWar.Text.Extending
import CoreWar.Text.Unassigned

namespace CoreWar.Text

/-- Controls, format marks, separators other than the space, fillers and private
characters. -/
def invisible : List Range :=
  [(0x0, 0x1f), (0x7f, 0xa0), (0xad, 0xad), (0x600, 0x605), (0x61c, 0x61c), (0x6dd, 0x6dd),
    (0x70f, 0x70f), (0x890, 0x891), (0x8e2, 0x8e2), (0x115f, 0x1160), (0x1680, 0x1680),
    (0x180e, 0x180e), (0x2000, 0x200b), (0x200d, 0x200f), (0x2028, 0x202f), (0x205f, 0x2064),
    (0x2066, 0x206f), (0x3000, 0x3000), (0x3164, 0x3164), (0xe000, 0xf8ff), (0xfeff, 0xfeff),
    (0xffa0, 0xffa0), (0xfff9, 0xfffb), (0x110bd, 0x110bd), (0x110cd, 0x110cd), (0x13430, 0x1343f),
    (0x1bca0, 0x1bca3), (0x1d173, 0x1d17a), (0xe0001, 0xe0001), (0xf0000, 0xffffd),
    (0x100000, 0x10fffd)]

def isHidden (c : Char) : Bool :=
  within invisible c || within extending c || within unassigned c

end CoreWar.Text
