/-
**Capital letters.**

A name that starts with a capital letter is meant to be one of a class. The capital letters are
those of all scripts, listed as ranges of code points of which every one or every second one is a
capital.

* `Text.capitalRanges` — the ranges: first, last and step;
* `Text.isCapital` — **is a character a capital letter?**
* `Text.startsWithCapital` — does a text start with one?
-/

namespace Smalltalk.Text

/-- The ranges of the capital letters: the first code point, the last one, and the step from one
to the next. -/
def capitalRanges : List (Nat × Nat × Nat) :=
  [(0x41, 0x5a, 1), (0xc0, 0xd6, 1), (0xd8, 0xde, 1), (0x100, 0x136, 2), (0x139, 0x147, 2),
    (0x14a, 0x178, 2), (0x179, 0x17d, 2), (0x181, 0x182, 1), (0x184, 0x186, 2),
    (0x187, 0x189, 2), (0x18a, 0x18b, 1), (0x18e, 0x191, 1), (0x193, 0x194, 1),
    (0x196, 0x198, 1), (0x19c, 0x19d, 1), (0x19f, 0x1a0, 1), (0x1a2, 0x1a6, 2),
    (0x1a7, 0x1a9, 2), (0x1ac, 0x1ae, 2), (0x1af, 0x1b1, 2), (0x1b2, 0x1b3, 1),
    (0x1b5, 0x1b7, 2), (0x1b8, 0x1b8, 1), (0x1bc, 0x1bc, 1), (0x1c4, 0x1c4, 1),
    (0x1c7, 0x1c7, 1), (0x1ca, 0x1ca, 1), (0x1cd, 0x1db, 2), (0x1de, 0x1ee, 2),
    (0x1f1, 0x1f1, 1), (0x1f4, 0x1f6, 2), (0x1f7, 0x1f8, 1), (0x1fa, 0x232, 2),
    (0x23a, 0x23b, 1), (0x23d, 0x23e, 1), (0x241, 0x243, 2), (0x244, 0x246, 1),
    (0x248, 0x24e, 2), (0x370, 0x372, 2), (0x376, 0x376, 1), (0x37f, 0x37f, 1),
    (0x386, 0x388, 2), (0x389, 0x38a, 1), (0x38c, 0x38e, 2), (0x38f, 0x391, 2),
    (0x392, 0x3a1, 1), (0x3a3, 0x3ab, 1), (0x3cf, 0x3cf, 1), (0x3d2, 0x3d4, 1),
    (0x3d8, 0x3ee, 2), (0x3f4, 0x3f4, 1), (0x3f7, 0x3f9, 2), (0x3fa, 0x3fa, 1),
    (0x3fd, 0x42f, 1), (0x460, 0x480, 2), (0x48a, 0x4c0, 2), (0x4c1, 0x4cd, 2),
    (0x4d0, 0x52e, 2), (0x531, 0x556, 1), (0x10a0, 0x10c5, 1), (0x10c7, 0x10c7, 1),
    (0x10cd, 0x10cd, 1), (0x13a0, 0x13f5, 1), (0x1c89, 0x1c89, 1), (0x1c90, 0x1cba, 1),
    (0x1cbd, 0x1cbf, 1), (0x1e00, 0x1e94, 2), (0x1e9e, 0x1efe, 2), (0x1f08, 0x1f0f, 1),
    (0x1f18, 0x1f1d, 1), (0x1f28, 0x1f2f, 1), (0x1f38, 0x1f3f, 1), (0x1f48, 0x1f4d, 1),
    (0x1f59, 0x1f5f, 2), (0x1f68, 0x1f6f, 1), (0x1fb8, 0x1fbb, 1), (0x1fc8, 0x1fcb, 1),
    (0x1fd8, 0x1fdb, 1), (0x1fe8, 0x1fec, 1), (0x1ff8, 0x1ffb, 1), (0x2102, 0x2102, 1),
    (0x2107, 0x2107, 1), (0x210b, 0x210d, 1), (0x2110, 0x2112, 1), (0x2115, 0x2115, 1),
    (0x2119, 0x211d, 1), (0x2124, 0x212a, 2), (0x212b, 0x212d, 1), (0x2130, 0x2133, 1),
    (0x213e, 0x213f, 1), (0x2145, 0x2145, 1), (0x2160, 0x216f, 1), (0x2183, 0x2183, 1),
    (0x24b6, 0x24cf, 1), (0x2c00, 0x2c2f, 1), (0x2c60, 0x2c62, 2), (0x2c63, 0x2c64, 1),
    (0x2c67, 0x2c6d, 2), (0x2c6e, 0x2c70, 1), (0x2c72, 0x2c72, 1), (0x2c75, 0x2c75, 1),
    (0x2c7e, 0x2c80, 1), (0x2c82, 0x2ce2, 2), (0x2ceb, 0x2ced, 2), (0x2cf2, 0x2cf2, 1),
    (0xa640, 0xa66c, 2), (0xa680, 0xa69a, 2), (0xa722, 0xa72e, 2), (0xa732, 0xa76e, 2),
    (0xa779, 0xa77d, 2), (0xa77e, 0xa786, 2), (0xa78b, 0xa78d, 2), (0xa790, 0xa792, 2),
    (0xa796, 0xa7aa, 2), (0xa7ab, 0xa7ae, 1), (0xa7b0, 0xa7b4, 1), (0xa7b6, 0xa7c4, 2),
    (0xa7c5, 0xa7c7, 1), (0xa7c9, 0xa7cb, 2), (0xa7cc, 0xa7dc, 2), (0xa7f5, 0xa7f5, 1),
    (0xff21, 0xff3a, 1), (0x10400, 0x10427, 1), (0x104b0, 0x104d3, 1), (0x10570, 0x1057a, 1),
    (0x1057c, 0x1058a, 1), (0x1058c, 0x10592, 1), (0x10594, 0x10595, 1), (0x10c80, 0x10cb2, 1),
    (0x10d50, 0x10d65, 1), (0x118a0, 0x118bf, 1), (0x16e40, 0x16e5f, 1), (0x16ea0, 0x16eb8, 1),
    (0x1d400, 0x1d419, 1), (0x1d434, 0x1d44d, 1), (0x1d468, 0x1d481, 1), (0x1d49c, 0x1d49e, 2),
    (0x1d49f, 0x1d49f, 1), (0x1d4a2, 0x1d4a2, 1), (0x1d4a5, 0x1d4a6, 1), (0x1d4a9, 0x1d4ac, 1),
    (0x1d4ae, 0x1d4b5, 1), (0x1d4d0, 0x1d4e9, 1), (0x1d504, 0x1d505, 1), (0x1d507, 0x1d50a, 1),
    (0x1d50d, 0x1d514, 1), (0x1d516, 0x1d51c, 1), (0x1d538, 0x1d539, 1), (0x1d53b, 0x1d53e, 1),
    (0x1d540, 0x1d544, 1), (0x1d546, 0x1d546, 1), (0x1d54a, 0x1d550, 1), (0x1d56c, 0x1d585, 1),
    (0x1d5a0, 0x1d5b9, 1), (0x1d5d4, 0x1d5ed, 1), (0x1d608, 0x1d621, 1), (0x1d63c, 0x1d655, 1),
    (0x1d670, 0x1d689, 1), (0x1d6a8, 0x1d6c0, 1), (0x1d6e2, 0x1d6fa, 1), (0x1d71c, 0x1d734, 1),
    (0x1d756, 0x1d76e, 1), (0x1d790, 0x1d7a8, 1), (0x1d7ca, 0x1d7ca, 1), (0x1e900, 0x1e921, 1),
    (0x1f130, 0x1f149, 1), (0x1f150, 0x1f169, 1), (0x1f170, 0x1f189, 1)]

/-- **Is a character a capital letter?** -/
def isCapital (c : Char) : Bool :=
  capitalRanges.any fun (first, last, step) =>
    first ≤ c.toNat && c.toNat ≤ last && (c.toNat - first) % step = 0

def startsWithCapital (text : String) : Bool := text.toList.head?.any isCapital

end Smalltalk.Text
