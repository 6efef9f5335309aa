import Lineage.Text.Printable

namespace Lineage.Url

/-!
# Characters of domain names

A character of a domain name is dropped, refused, replaced by ASCII characters, or kept.

* `Fate`, `fate` — what becomes of a character,
* `isCanonical`  — whether a character is its own canonical form, so that it may occur in a decoded
  label.

A character that is replaced by others outside of ASCII, such as a capital letter, is kept here:
whether a name is valid does not depend on the difference.
-/

/-! ### ASCII -/

/-- ASCII characters that no domain name may hold. -/
def isDelimiter (c : Char) : Bool :=
  c.toNat ≤ 0x20 || c.toNat == 0x7F || "%#/:<>?@[\\]^|".toList.contains c

/-! ### Other characters -/

/-- Runs of characters that leave no trace in a domain name. -/
def ignoredRuns : List (Nat × Nat) := [
    (0xAD, 0xAD), (0x34F, 0x34F), (0x115F, 0x1160), (0x17B4, 0x17B5), (0x180B, 0x180F),
    (0x200B, 0x200B), (0x2060, 0x2064), (0x206A, 0x206F), (0x3164, 0x3164), (0xFE00, 0xFE0F),
    (0xFEFF, 0xFEFF), (0xFFA0, 0xFFA0), (0x1BCA0, 0x1BCA3), (0x1D173, 0x1D17A),
    (0xE0100, 0xE01EF)]

/-- Characters that join or separate others; they are kept where their neighbours call for them. -/
def isJoiner (c : Char) : Bool := c == '\u200C' || c == '\u200D'

/-- Runs of printable characters that are refused, most of them because their canonical form holds a
    blank or a delimiter. -/
def refusedRuns : List (Nat × Nat) := [
    (0xA8, 0xA8), (0xAF, 0xAF), (0xB4, 0xB4), (0xB8, 0xB8), (0x2D8, 0x2DD), (0x37A, 0x37A),
    (0x384, 0x385), (0x1FBD, 0x1FBD), (0x1FBF, 0x1FC1), (0x1FCD, 0x1FCF), (0x1FDD, 0x1FDF),
    (0x1FED, 0x1FEE), (0x1FFD, 0x1FFE), (0x2017, 0x2017), (0x2024, 0x2026), (0x203E, 0x203E),
    (0x2047, 0x2049), (0x2100, 0x2101), (0x2105, 0x2106), (0x2488, 0x249B), (0x2A74, 0x2A74),
    (0x2FF0, 0x2FFF), (0x309B, 0x309C), (0x31EF, 0x31EF), (0x33C2, 0x33C2), (0x33C7, 0x33C7),
    (0x33D8, 0x33D8), (0xFC5E, 0xFC63), (0xFDFA, 0xFDFB), (0xFE12, 0xFE13), (0xFE16, 0xFE16),
    (0xFE19, 0xFE19), (0xFE30, 0xFE30), (0xFE47, 0xFE4C), (0xFE52, 0xFE52), (0xFE55, 0xFE56),
    (0xFE5F, 0xFE5F), (0xFE64, 0xFE65), (0xFE68, 0xFE68), (0xFE6A, 0xFE6B), (0xFE70, 0xFE70),
    (0xFE72, 0xFE72), (0xFE74, 0xFE74), (0xFE76, 0xFE76), (0xFE78, 0xFE78), (0xFE7A, 0xFE7A),
    (0xFE7C, 0xFE7C), (0xFE7E, 0xFE7E), (0xFF03, 0xFF03), (0xFF05, 0xFF05), (0xFF0F, 0xFF0F),
    (0xFF1A, 0xFF1A), (0xFF1C, 0xFF1C), (0xFF1E, 0xFF20), (0xFF3B, 0xFF3E), (0xFF5C, 0xFF5C),
    (0xFFE3, 0xFFE3), (0xFFFC, 0xFFFD), (0x1F100, 0x1F100)]

/-- Full stops of other scripts. -/
def isStop (c : Char) : Bool := c == '.' || c == '\u3002' || c == '\uFF0E' || c == '\uFF61'

/-- Runs of characters replaced by one ASCII character each. -/
def singleForms : List (Nat × String) := [
    (0xAA, "a"), (0xB2, "23"), (0xB9, "1o"), (0x17F, "s"), (0x2B0, "h"), (0x2B2, "jr"),
    (0x2B7, "wy"), (0x2E1, "lsx"), (0x37E, ";"), (0x1D2C, "a"), (0x1D2E, "b"), (0x1D30, "de"),
    (0x1D33, "ghijklmn"), (0x1D3C, "o"), (0x1D3E, "prtuwa"), (0x1D47, "bde"), (0x1D4D, "g"),
    (0x1D4F, "km"), (0x1D52, "o"), (0x1D56, "ptu"), (0x1D5B, "v"), (0x1D62, "iruv"),
    (0x1D9C, "c"), (0x1DA0, "f"), (0x1DBB, "z"), (0x1FEF, "`"), (0x2070, "0i"),
    (0x2074, "456789+"), (0x207C, "=()n0123456789+"), (0x208C, "=()"), (0x2090, "aeox"),
    (0x2095, "hklmnpst"), (0x2102, "c"), (0x210A, "ghhhh"), (0x2110, "iill"), (0x2115, "n"),
    (0x2119, "pqrrr"), (0x2124, "z"), (0x2128, "z"), (0x212A, "k"), (0x212C, "bc"),
    (0x212F, "eef"), (0x2133, "mo"), (0x2139, "i"), (0x2145, "ddeij"), (0x2160, "i"),
    (0x2164, "v"), (0x2169, "x"), (0x216C, "lcdmi"), (0x2174, "v"), (0x2179, "x"),
    (0x217C, "lcdm"), (0x2460, "123456789"),
    (0x24B6, "abcdefghijklmnopqrstuvwxyzabcdefghijklmnopqrstuvwxyz0"), (0x2C7C, "jv"),
    (0xA7F1, "scfq"), (0xFB29, "+"), (0xFE10, ","), (0xFE14, ";!"), (0xFE33, "__()\x7b\x7d"),
    (0xFE4D, "___,"), (0xFE54, ";"), (0xFE57, "!"), (0xFE59, "()\x7b\x7d"), (0xFE60, "&*+-"),
    (0xFE66, "="), (0xFE69, "$"), (0xFF01, "!\""), (0xFF04, "$"), (0xFF06, "&'()*+,-"),
    (0xFF10, "0123456789"), (0xFF1B, ";"), (0xFF1D, "="), (0xFF21, "abcdefghijklmnopqrstuvwxyz"),
    (0xFF3F, "_`abcdefghijklmnopqrstuvwxyz\x7b"), (0xFF5D, "\x7d~"), (0x107A5, "q"),
    (0x1CCD6, "abcdefghijklmnopqrstuvwxyz0123456789"),
    (0x1D400, "abcdefghijklmnopqrstuvwxyzabcdefghijklmnopqrstuvwxyzabcdefgh"),
    (0x1D43C, "ijklmnopqrstuvwxyzabcdefg"),
    (0x1D456, "ijklmnopqrstuvwxyzabcdefghijklmnopqrstuvwxyzabcdefghijklmnop"),
    (0x1D492, "qrstuvwxyza"), (0x1D49E, "cd"), (0x1D4A2, "g"), (0x1D4A5, "jk"),
    (0x1D4A9, "nopq"), (0x1D4AE, "stuvwxyzabcd"), (0x1D4BB, "f"), (0x1D4BD, "hijklmn"),
    (0x1D4C5, "pqrstuvwxyzabcdefghijklmnopqrstuvwxyzabcdefghijklmnopqrstuvw"),
    (0x1D501, "xyzab"), (0x1D507, "defg"), (0x1D50D, "jklmnopq"), (0x1D516, "stuvwxy"),
    (0x1D51E, "abcdefghijklmnopqrstuvwxyzab"), (0x1D53B, "defg"), (0x1D540, "ijklm"),
    (0x1D546, "o"), (0x1D54A, "stuvwxy"),
    (0x1D552, "abcdefghijklmnopqrstuvwxyzabcdefghijklmnopqrstuvwxyzabcdefgh"),
    (0x1D58E, "ijklmnopqrstuvwxyzabcdefghijklmnopqrstuvwxyzabcdefghijklmnop"),
    (0x1D5CA, "qrstuvwxyzabcdefghijklmnopqrstuvwxyzabcdefghijklmnopqrstuvwx"),
    (0x1D606, "yzabcdefghijklmnopqrstuvwxyzabcdefghijklmnopqrstuvwxyzabcdef"),
    (0x1D642, "ghijklmnopqrstuvwxyzabcdefghijklmnopqrstuvwxyzabcdefghijklmn"),
    (0x1D67E, "opqrstuvwxyzabcdefghijklmnopqrstuvwxyz"),
    (0x1D7CE, "01234567890123456789012345678901234567890123456789"), (0x1F12B, "cr"),
    (0x1F130, "abcdefghijklmnopqrstuvwxyz"), (0x1FBF0, "0123456789")]

/-- Runs of characters replaced by several ASCII characters each. -/
def multipleForms : List (Nat × List String) := [
    (0x132, ["ij", "ij"]), (0x1C7, ["lj", "lj", "lj", "nj", "nj", "nj"]),
    (0x1F1, ["dz", "dz", "dz"]), (0x203C, ["!!"]), (0x20A8, ["rs"]), (0x2116, ["no"]),
    (0x2120, ["sm", "tel", "tm"]), (0x213B, ["fax"]), (0x2161, ["ii", "iii", "iv"]),
    (0x2165, ["vi", "vii", "viii", "ix"]), (0x216A, ["xi", "xii"]),
    (0x2171, ["ii", "iii", "iv"]), (0x2175, ["vi", "vii", "viii", "ix"]),
    (0x217A, ["xi", "xii"]),
    (0x2469, ["10", "11", "12", "13", "14", "15", "16", "17", "18", "19"]),
    (0x2473, ["20", "(1)", "(2)", "(3)", "(4)", "(5)", "(6)", "(7)", "(8)", "(9)"]),
    (0x247D, ["(10)", "(11)", "(12)", "(13)", "(14)", "(15)", "(16)", "(17)", "(18)", "(19)"]),
    (0x2487, ["(20)"]),
    (0x249C, ["(a)", "(b)", "(c)", "(d)", "(e)", "(f)", "(g)", "(h)", "(i)", "(j)"]),
    (0x24A6, ["(k)", "(l)", "(m)", "(n)", "(o)", "(p)", "(q)", "(r)", "(s)", "(t)"]),
    (0x24B0, ["(u)", "(v)", "(w)", "(x)", "(y)", "(z)"]), (0x2A75, ["==", "==="]),
    (0x3250, ["pte", "21", "22", "23", "24", "25", "26", "27", "28", "29"]),
    (0x325A, ["30", "31", "32", "33", "34", "35"]),
    (0x32B1, ["36", "37", "38", "39", "40", "41", "42", "43", "44", "45"]),
    (0x32BB, ["46", "47", "48", "49", "50"]), (0x32CC, ["hg", "erg", "ev", "ltd"]),
    (0x3371, ["hpa", "da", "au", "bar", "ov", "pc", "dm", "dm2", "dm3", "iu"]),
    (0x3380, ["pa", "na"]), (0x3383, ["ma", "ka", "kb", "mb", "gb", "cal", "kcal", "pf", "nf"]),
    (0x338E, ["mg", "kg", "hz", "khz", "mhz", "ghz", "thz"]),
    (0x3396, ["ml", "dl", "kl", "fm", "nm"]),
    (0x339C, ["mm", "cm", "km", "mm2", "cm2", "m2", "km2", "mm3", "cm3", "m3"]),
    (0x33A6, ["km3"]), (0x33A9, ["pa", "kpa", "mpa", "gpa", "rad"]), (0x33B0, ["ps", "ns"]),
    (0x33B3, ["ms", "pv", "nv"]), (0x33B7, ["mv", "kv", "mv", "pw", "nw"]),
    (0x33BD, ["mw", "kw", "mw"]), (0x33C3, ["bq", "cc", "cd"]),
    (0x33C8, ["db", "gy", "ha", "hp", "in", "kk", "km", "kt", "lm", "ln"]),
    (0x33D2, ["log", "lx", "mb", "mil", "mol", "ph"]), (0x33D9, ["ppm", "pr", "sr", "sv", "wb"]),
    (0x33FF, ["gal"]), (0xFB00, ["ff", "fi", "fl", "ffi", "ffl", "st", "st"]),
    (0x1F101, ["0,", "1,", "2,", "3,", "4,", "5,", "6,", "7,", "8,", "9,"]),
    (0x1F110, ["(a)", "(b)", "(c)", "(d)", "(e)", "(f)", "(g)", "(h)", "(i)", "(j)"]),
    (0x1F11A, ["(k)", "(l)", "(m)", "(n)", "(o)", "(p)", "(q)", "(r)", "(s)", "(t)"]),
    (0x1F124, ["(u)", "(v)", "(w)", "(x)", "(y)", "(z)"]), (0x1F12D, ["cd", "wz"]),
    (0x1F14A, ["hv", "mv", "sd", "ss", "ppv", "wc"]), (0x1F16A, ["mc", "md", "mr"]),
    (0x1F190, ["dj"])]

/-- What a table of consecutive forms holds for a code point. -/
def formIn? {α : Type} (table : List (Nat × List α)) (n : Nat) : Option α :=
  table.findSome? fun e => if e.1 ≤ n then e.2[n - e.1]? else none

/-- The ASCII characters that replace a character. -/
def asciiForm? (n : Nat) : Option (List Char) :=
  ((formIn? (singleForms.map fun e => (e.1, e.2.toList)) n).map fun c => [c]).or
    ((formIn? multipleForms n).map String.toList)

/-- What becomes of a character of a domain name. -/
inductive Fate where
  | dropped
  | refused
  /-- Characters stand in its place. -/
  | replaced (cs : List Char)

/-- What becomes of a character. -/
def fate (c : Char) : Fate :=
  let n := c.toNat
  if n < 0x80 then if isDelimiter c then .refused else .replaced [c.toLower]
  else if isStop c then .replaced ['.']
  else if isJoiner c then .replaced [c]
  else if Text.inRuns ignoredRuns n then .dropped
  else if !Text.isPrintable c || Text.inRuns refusedRuns n then .refused
  else .replaced ((asciiForm? n).getD [c])

/-! ### Canonical form -/

/-- Runs of characters that are not their own canonical form. -/
def replacedRuns : List (Nat × Nat) := [
    (0xAA, 0xAA), (0xB2, 0xB5), (0xB9, 0xBA), (0xBC, 0xBE), (0xC0, 0xD6), (0xD8, 0xDE),
    (0x132, 0x134), (0x136, 0x136), (0x13F, 0x141), (0x149, 0x14A), (0x178, 0x179),
    (0x181, 0x182), (0x184, 0x184), (0x186, 0x187), (0x189, 0x18B), (0x18E, 0x191),
    (0x193, 0x194), (0x196, 0x198), (0x19C, 0x19D), (0x19F, 0x1A0), (0x1A2, 0x1A2),
    (0x1A4, 0x1A4), (0x1A6, 0x1A7), (0x1A9, 0x1A9), (0x1AC, 0x1AC), (0x1AE, 0x1AF),
    (0x1B1, 0x1B3), (0x1B5, 0x1B5), (0x1B7, 0x1B8), (0x1BC, 0x1BC), (0x1C4, 0x1CD),
    (0x1F1, 0x1F4), (0x1F6, 0x1F8), (0x23A, 0x23B), (0x23D, 0x23E), (0x241, 0x241),
    (0x243, 0x246), (0x2B0, 0x2B8), (0x2E0, 0x2E4), (0x340, 0x341), (0x343, 0x345),
    (0x37E, 0x38F), (0x391, 0x3AB), (0x3CF, 0x3D6), (0x3F0, 0x3F2), (0x3F4, 0x3F5),
    (0x3F7, 0x3F7), (0x3F9, 0x3FA), (0x3FD, 0x42F), (0x4C0, 0x4C1), (0x531, 0x556),
    (0x587, 0x587), (0x675, 0x678), (0x958, 0x95F), (0x9DC, 0x9DF), (0xA33, 0xA33),
    (0xA36, 0xA36), (0xA59, 0xA5B), (0xA5E, 0xA5E), (0xB5C, 0xB5D), (0xE33, 0xE33),
    (0xEB3, 0xEB3), (0xEDC, 0xEDD), (0xF0C, 0xF0C), (0xF43, 0xF43), (0xF4D, 0xF4D),
    (0xF52, 0xF52), (0xF57, 0xF57), (0xF5C, 0xF5C), (0xF69, 0xF69), (0xF73, 0xF73),
    (0xF75, 0xF79), (0xF81, 0xF81), (0xF93, 0xF93), (0xF9D, 0xF9D), (0xFA2, 0xFA2),
    (0xFA7, 0xFA7), (0xFAC, 0xFAC), (0xFB9, 0xFB9), (0x10A0, 0x10CD), (0x10FC, 0x10FC),
    (0x13F8, 0x13FD), (0x1C80, 0x1C89), (0x1C90, 0x1CBF), (0x1D2C, 0x1D2E), (0x1D30, 0x1D3A),
    (0x1D3C, 0x1D4D), (0x1D4F, 0x1D6A), (0x1D78, 0x1D78), (0x1D9B, 0x1DBF), (0x1E9A, 0x1E9B),
    (0x1F08, 0x1F0F), (0x1F18, 0x1F1D), (0x1F28, 0x1F2F), (0x1F38, 0x1F3F), (0x1F48, 0x1F4D),
    (0x1F68, 0x1F6F), (0x1F80, 0x1FAF), (0x1FB2, 0x1FB4), (0x1FB7, 0x1FC4), (0x1FC7, 0x1FCC),
    (0x1FD3, 0x1FD3), (0x1FD8, 0x1FDB), (0x1FE3, 0x1FE3), (0x1FE8, 0x1FF4), (0x1FF7, 0x1FFC),
    (0x2011, 0x2011), (0x2033, 0x2034), (0x2036, 0x2037), (0x203C, 0x203C), (0x2057, 0x2057),
    (0x2070, 0x209C), (0x20A8, 0x20A8), (0x2102, 0x2103), (0x2107, 0x2107), (0x2109, 0x2113),
    (0x2115, 0x2116), (0x2119, 0x211D), (0x2120, 0x2122), (0x212A, 0x212D), (0x212F, 0x2139),
    (0x213B, 0x2140), (0x2145, 0x2149), (0x2150, 0x217F), (0x2183, 0x2183), (0x2189, 0x2189),
    (0x222C, 0x222D), (0x222F, 0x2230), (0x2329, 0x232A), (0x2460, 0x24EA), (0x2A0C, 0x2A0C),
    (0x2A75, 0x2A76), (0x2ADC, 0x2ADC), (0x2C00, 0x2C2F), (0x2C60, 0x2C60), (0x2C62, 0x2C64),
    (0x2C6D, 0x2C70), (0x2C72, 0x2C72), (0x2C75, 0x2C75), (0x2C7C, 0x2C80), (0x2CEB, 0x2CEB),
    (0x2CED, 0x2CED), (0x2CF2, 0x2CF2), (0x2D6F, 0x2D6F), (0x2E9F, 0x2E9F), (0x2EF3, 0x2FD5),
    (0x3002, 0x3002), (0x3036, 0x3036), (0x3038, 0x303A), (0x309F, 0x309F), (0x30FF, 0x30FF),
    (0x3131, 0x318E), (0x3192, 0x319F), (0x3200, 0x3247), (0x3250, 0x327E), (0x3280, 0x33FF),
    (0xA69C, 0xA69D), (0xA779, 0xA779), (0xA77B, 0xA77B), (0xA77D, 0xA77E), (0xA78B, 0xA78B),
    (0xA78D, 0xA78D), (0xA790, 0xA790), (0xA792, 0xA792), (0xA7AA, 0xA7AE), (0xA7B0, 0xA7B4),
    (0xA7C4, 0xA7C7), (0xA7C9, 0xA7C9), (0xA7CB, 0xA7CC), (0xA7F1, 0xA7F5), (0xA7F8, 0xA7F9),
    (0xAB5C, 0xAB5F), (0xAB69, 0xAB69), (0xAB70, 0xABBF), (0xF900, 0xFA0D), (0xFA10, 0xFA10),
    (0xFA12, 0xFA12), (0xFA15, 0xFA1E), (0xFA20, 0xFA20), (0xFA22, 0xFA22), (0xFA25, 0xFA26),
    (0xFA2A, 0xFB1D), (0xFB1F, 0xFBB1), (0xFBD3, 0xFD3D), (0xFD50, 0xFDC7), (0xFDF0, 0xFDFC),
    (0xFE10, 0xFE18), (0xFE31, 0xFE44), (0xFE4D, 0xFE71), (0xFE7F, 0xFFEE), (0x10400, 0x10427),
    (0x104B0, 0x104D3), (0x10570, 0x10595), (0x10781, 0x107BA), (0x10C80, 0x10CB2),
    (0x10D50, 0x10D65), (0x118A0, 0x118BF), (0x16E40, 0x16E5F), (0x16EA0, 0x16EB8),
    (0x1CCD6, 0x1CCF9), (0x1D15E, 0x1D164), (0x1D1BB, 0x1D1C0), (0x1D400, 0x1D7FF),
    (0x1E030, 0x1E06D), (0x1E900, 0x1E921), (0x1EE00, 0x1EE42), (0x1EE4D, 0x1EE54),
    (0x1EE61, 0x1EEBB), (0x1F101, 0x1F10A), (0x1F110, 0x1F12E), (0x1F130, 0x1F14F),
    (0x1F16A, 0x1F16C), (0x1F190, 0x1F190), (0x1F200, 0x1F251), (0x1FBF0, 0x1FBF9),
    (0x2F800, 0x2FA1D)]

/-- Runs in which every other character, from the first on, is not its own canonical form. -/
def alternatingRuns : List (Nat × Nat) := [
    (0x100, 0x130), (0x139, 0x13D), (0x143, 0x147), (0x14C, 0x176), (0x17B, 0x17F),
    (0x1CF, 0x1DB), (0x1DE, 0x1EE), (0x1FA, 0x232), (0x248, 0x24E), (0x370, 0x376),
    (0x3D8, 0x3EE), (0x460, 0x480), (0x48A, 0x4BE), (0x4C3, 0x4CD), (0x4D0, 0x52E),
    (0x1E00, 0x1E94), (0x1E9E, 0x1EFE), (0x1F59, 0x1F5F), (0x1F71, 0x1F7D), (0x2124, 0x2128),
    (0x2C67, 0x2C6B), (0x2C82, 0x2CE2), (0xA640, 0xA66C), (0xA680, 0xA69A), (0xA722, 0xA72E),
    (0xA732, 0xA770), (0xA780, 0xA786), (0xA796, 0xA7A8), (0xA7B6, 0xA7C2), (0xA7CE, 0xA7DC),
    (0xFE77, 0xFE7D), (0x1EE47, 0x1EE4B), (0x1EE57, 0x1EE5F)]

/-- Whether a character may occur in a decoded label. -/
def isCanonical (c : Char) : Bool :=
  let n := c.toNat
  if n < 0x80 then !isDelimiter c && c != '.' && !c.isUpper
  else isJoiner c
    || !(Text.inRuns ignoredRuns n || !Text.isPrintable c || Text.inRuns refusedRuns n
      || Text.inRuns replacedRuns n
      || alternatingRuns.any fun r => r.1 ≤ n && n ≤ r.2 && (n - r.1) % 2 == 0)

end Lineage.Url
