import LineScript.Text.Width.Char

/-!
# Letters of ligatures

The letters that are written as one sign with a letter before or after them, and the characters
that may stand between the two.
-/
namespace LineScript.Text

/-- Arabic letters that begin a ligature with a following alef. -/
def isLam (c : Char) : Bool :=
  isInside [0x644, 0x645, 0x6b5, 0x6b9, 0x76a, 0x76b, 0x8a6, 0x8a7, 0x8c7, 0x8c8] c

def isAlef (c : Char) : Bool :=
  isInside [0x622, 0x624, 0x625, 0x626, 0x627, 0x628, 0x671, 0x674, 0x675, 0x676, 0x773, 0x775,
    0x870, 0x883] c

/-- Where the characters without a column that interrupt Arabic joining begin and end. -/
private def interruptingChanges : List Nat := [
  0x605, 0x606, 0x890, 0x892, 0x8e2, 0x8e3, 0x9be, 0x9bf, 0x9d7, 0x9d8, 0xb3e, 0xb3f, 0xb57, 0xb58,
  0xbbe, 0xbbf, 0xbd7, 0xbd8, 0xcc0, 0xcc1, 0xcc2, 0xcc3, 0xcc7, 0xcc9, 0xcca, 0xccc, 0xcd5, 0xcd7,
  0xd3e, 0xd3f, 0xd4e, 0xd4f, 0xd57, 0xd58, 0xdcf, 0xdd0, 0xddf, 0xde0, 0x1160, 0x1200, 0x1715,
  0x1716, 0x1734, 0x1735, 0x180e, 0x180f, 0x1b35, 0x1b36, 0x1b3b, 0x1b3c, 0x1b3d, 0x1b3e, 0x1b43,
  0x1b45, 0x1baa, 0x1bab, 0x1bf2, 0x1bf4, 0x200c, 0x200e, 0x2065, 0x206a, 0x302e, 0x3030, 0x3164,
  0x3165, 0xa8fa, 0xa8fb, 0xa953, 0xa954, 0xa9c0, 0xa9c1, 0xd7b0, 0xd7c7, 0xd7cb, 0xd7fc, 0xffa0,
  0xffa1, 0xfff0, 0xfff9, 0x111c0, 0x111c1, 0x111c2, 0x111c4, 0x11235, 0x11236, 0x1133e, 0x1133f,
  0x1134d, 0x1134e, 0x11357, 0x11358, 0x113b8, 0x113b9, 0x113c2, 0x113c3, 0x113c5, 0x113c6,
  0x113c7, 0x113ca, 0x113cf, 0x113d0, 0x113d1, 0x113d2, 0x114b0, 0x114b1, 0x114bd, 0x114be,
  0x115af, 0x115b0, 0x116b6, 0x116b7, 0x11930, 0x11931, 0x1193d, 0x1193e, 0x1193f, 0x11940,
  0x11941, 0x11942, 0x11a84, 0x11a8a, 0x11d46, 0x11d47, 0x11f02, 0x11f03, 0x11f41, 0x11f42,
  0x16ff0, 0x16ff2, 0x1d165, 0x1d167, 0x1d16d, 0x1d173, 0xe0000, 0xe0001, 0xe0002, 0xe0020,
  0xe0080, 0xe0100, 0xe01f0, 0xe1000]

def isArabicMark (c : Char) : Bool :=
  charWidth c == 0 && !isInside interruptingChanges c

/-- Marks that are ignored when text is shown, and so never separate two letters. -/
def isSilentMark (c : Char) : Bool :=
  isInside [0x34f, 0x350, 0x17b4, 0x17b6, 0x180b, 0x180e, 0x180f, 0x1810, 0xfe00, 0xfe10, 0xe0100,
    0xe01f0] c

/-- Khmer letters that have a form below another letter. -/
def isKhmerBelow (c : Char) : Bool :=
  isInside [0x1780, 0x1783, 0x1784, 0x1788, 0x1789, 0x178d, 0x178e, 0x1794, 0x1795, 0x1799, 0x179b,
    0x179e, 0x17a0, 0x17a1, 0x17a2, 0x17a3, 0x17a7, 0x17a8, 0x17ab, 0x17ad, 0x17af, 0x17b0] c

def isTifinaghConsonant (c : Char) : Bool :=
  isInside [0x2d31, 0x2d66, 0x2d6f, 0x2d70] c

/-- Lisu tone letters that combine with a following one. -/
def isLisuFirstTone (c : Char) : Bool :=
  isInside [0xa4f8, 0xa4fc] c

def isLisuSecondTone (c : Char) : Bool :=
  isInside [0xa4fc, 0xa4fe] c

end LineScript.Text
