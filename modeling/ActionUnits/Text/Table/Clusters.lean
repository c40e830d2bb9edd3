import ActionUnits.Text.CodeTable

/-! # Characters that matter to the clusters of a text -/

namespace ActionUnits.Text.Table

/-- Code points beyond ASCII with `Grapheme_Cluster_Break=Control`. -/
def separateControl : CodeTable :=
  [(0x80, 0x9f), (0xad, 0xad), (0x61c, 0x61c), (0x180e, 0x180e), (0x200b, 0x200b),
   (0x200e, 0x200f), (0x2028, 0x202e), (0x2060, 0x206f), (0xfeff, 0xfeff), (0xfff0, 0xfffb),
   (0x13430, 0x1343f), (0x1bca0, 0x1bca3), (0x1d173, 0x1d17a), (0xe0000, 0xe001f),
   (0xe0080, 0xe00ff), (0xe01f0, 0xe0fff)]

/-- Code points with `Grapheme_Cluster_Break=Prepend`. -/
def prepended : CodeTable :=
  [(0x600, 0x605), (0x6dd, 0x6dd), (0x70f, 0x70f), (0x890, 0x891), (0x8e2, 0x8e2),
   (0xd4e, 0xd4e), (0x110bd, 0x110bd), (0x110cd, 0x110cd), (0x111c2, 0x111c3),
   (0x113d1, 0x113d1), (0x1193f, 0x1193f), (0x11941, 0x11941), (0x11a84, 0x11a89),
   (0x11d46, 0x11d46), (0x11f02, 0x11f02)]

/-- Code points with `Grapheme_Cluster_Break=SpacingMark`. -/
def spacingMark : CodeTable :=
  [(0x903, 0x903), (0x93b, 0x93b), (0x93e, 0x940), (0x949, 0x94c), (0x94e, 0x94f),
   (0x982, 0x983), (0x9bf, 0x9c0), (0x9c7, 0x9c8), (0x9cb, 0x9cc), (0xa03, 0xa03),
   (0xa3e, 0xa40), (0xa83, 0xa83), (0xabe, 0xac0), (0xac9, 0xac9), (0xacb, 0xacc),
   (0xb02, 0xb03), (0xb40, 0xb40), (0xb47, 0xb48), (0xb4b, 0xb4c), (0xbbf, 0xbbf),
   (0xbc1, 0xbc2), (0xbc6, 0xbc8), (0xbca, 0xbcc), (0xc01, 0xc03), (0xc41, 0xc44),
   (0xc82, 0xc83), (0xcbe, 0xcbe), (0xcc1, 0xcc1), (0xcc3, 0xcc4), (0xcf3, 0xcf3),
   (0xd02, 0xd03), (0xd3f, 0xd40), (0xd46, 0xd48), (0xd4a, 0xd4c), (0xd82, 0xd83),
   (0xdd0, 0xdd1), (0xdd8, 0xdde), (0xdf2, 0xdf3), (0xe33, 0xe33), (0xeb3, 0xeb3),
   (0xf3e, 0xf3f), (0xf7f, 0xf7f), (0x1031, 0x1031), (0x103b, 0x103c), (0x1056, 0x1057),
   (0x1084, 0x1084), (0x17b6, 0x17b6), (0x17be, 0x17c5), (0x17c7, 0x17c8), (0x1923, 0x1926),
   (0x1929, 0x192b), (0x1930, 0x1931), (0x1933, 0x1938), (0x1a19, 0x1a1a), (0x1a55, 0x1a55),
   (0x1a57, 0x1a57), (0x1a6d, 0x1a72), (0x1b04, 0x1b04), (0x1b3e, 0x1b41), (0x1b82, 0x1b82),
   (0x1ba1, 0x1ba1), (0x1ba6, 0x1ba7), (0x1be7, 0x1be7), (0x1bea, 0x1bec), (0x1bee, 0x1bee),
   (0x1c24, 0x1c2b), (0x1c34, 0x1c35), (0x1ce1, 0x1ce1), (0x1cf7, 0x1cf7), (0xa823, 0xa824),
   (0xa827, 0xa827), (0xa880, 0xa881), (0xa8b4, 0xa8c3), (0xa952, 0xa952), (0xa983, 0xa983),
   (0xa9b4, 0xa9b5), (0xa9ba, 0xa9bb), (0xa9be, 0xa9bf), (0xaa2f, 0xaa30), (0xaa33, 0xaa34),
   (0xaa4d, 0xaa4d), (0xaaeb, 0xaaeb), (0xaaee, 0xaaef), (0xaaf5, 0xaaf5), (0xabe3, 0xabe4),
   (0xabe6, 0xabe7), (0xabe9, 0xabea), (0xabec, 0xabec), (0x11000, 0x11000), (0x11002, 0x11002),
   (0x11082, 0x11082), (0x110b0, 0x110b2), (0x110b7, 0x110b8), (0x1112c, 0x1112c),
   (0x11145, 0x11146), (0x11182, 0x11182), (0x111b3, 0x111b5), (0x111bf, 0x111bf),
   (0x111ce, 0x111ce), (0x1122c, 0x1122e), (0x11232, 0x11233), (0x112e0, 0x112e2),
   (0x11302, 0x11303), (0x1133f, 0x1133f), (0x11341, 0x11344), (0x11347, 0x11348),
   (0x1134b, 0x1134c), (0x11362, 0x11363), (0x113b9, 0x113ba), (0x113ca, 0x113ca),
   (0x113cc, 0x113cd), (0x11435, 0x11437), (0x11440, 0x11441), (0x11445, 0x11445),
   (0x114b1, 0x114b2), (0x114b9, 0x114b9), (0x114bb, 0x114bc), (0x114be, 0x114be),
   (0x114c1, 0x114c1), (0x115b0, 0x115b1), (0x115b8, 0x115bb), (0x115be, 0x115be),
   (0x11630, 0x11632), (0x1163b, 0x1163c), (0x1163e, 0x1163e), (0x116ac, 0x116ac),
   (0x116ae, 0x116af), (0x1171e, 0x1171e), (0x11726, 0x11726), (0x1182c, 0x1182e),
   (0x11838, 0x11838), (0x11931, 0x11935), (0x11937, 0x11938), (0x11940, 0x11940),
   (0x11942, 0x11942), (0x119d1, 0x119d3), (0x119dc, 0x119df), (0x119e4, 0x119e4),
   (0x11a39, 0x11a39), (0x11a57, 0x11a58), (0x11a97, 0x11a97), (0x11b61, 0x11b61),
   (0x11b65, 0x11b65), (0x11b67, 0x11b67), (0x11c2f, 0x11c2f), (0x11c3e, 0x11c3e),
   (0x11ca9, 0x11ca9), (0x11cb1, 0x11cb1), (0x11cb4, 0x11cb4), (0x11d8a, 0x11d8e),
   (0x11d93, 0x11d94), (0x11d96, 0x11d96), (0x11ef5, 0x11ef6), (0x11f03, 0x11f03),
   (0x11f34, 0x11f35), (0x11f3e, 0x11f3f), (0x1612a, 0x1612c), (0x16f51, 0x16f87)]

/-- Code points with the property `Extended_Pictographic`. -/
def pictographic : CodeTable :=
  [(0xa9, 0xa9), (0xae, 0xae), (0x203c, 0x203c), (0x2049, 0x2049), (0x2122, 0x2122),
   (0x2139, 0x2139), (0x2194, 0x2199), (0x21a9, 0x21aa), (0x231a, 0x231b), (0x2328, 0x2328),
   (0x23cf, 0x23cf), (0x23e9, 0x23f3), (0x23f8, 0x23fa), (0x24c2, 0x24c2), (0x25aa, 0x25ab),
   (0x25b6, 0x25b6), (0x25c0, 0x25c0), (0x25fb, 0x25fe), (0x2600, 0x2604), (0x260e, 0x260e),
   (0x2611, 0x2611), (0x2614, 0x2615), (0x2618, 0x2618), (0x261d, 0x261d), (0x2620, 0x2620),
   (0x2622, 0x2623), (0x2626, 0x2626), (0x262a, 0x262a), (0x262e, 0x262f), (0x2638, 0x263a),
   (0x2640, 0x2640), (0x2642, 0x2642), (0x2648, 0x2653), (0x265f, 0x2660), (0x2663, 0x2663),
   (0x2665, 0x2666), (0x2668, 0x2668), (0x267b, 0x267b), (0x267e, 0x267f), (0x2692, 0x2697),
   (0x2699, 0x2699), (0x269b, 0x269c), (0x26a0, 0x26a1), (0x26a7, 0x26a7), (0x26aa, 0x26ab),
   (0x26b0, 0x26b1), (0x26bd, 0x26be), (0x26c4, 0x26c5), (0x26c8, 0x26c8), (0x26ce, 0x26cf),
   (0x26d1, 0x26d1), (0x26d3, 0x26d4), (0x26e9, 0x26ea), (0x26f0, 0x26f5), (0x26f7, 0x26fa),
   (0x26fd, 0x26fd), (0x2702, 0x2702), (0x2705, 0x2705), (0x2708, 0x270d), (0x270f, 0x270f),
   (0x2712, 0x2712), (0x2714, 0x2714), (0x2716, 0x2716), (0x271d, 0x271d), (0x2721, 0x2721),
   (0x2728, 0x2728), (0x2733, 0x2734), (0x2744, 0x2744), (0x2747, 0x2747), (0x274c, 0x274c),
   (0x274e, 0x274e), (0x2753, 0x2755), (0x2757, 0x2757), (0x2763, 0x2764), (0x2795, 0x2797),
   (0x27a1, 0x27a1), (0x27b0, 0x27b0), (0x27bf, 0x27bf), (0x2934, 0x2935), (0x2b05, 0x2b07),
   (0x2b1b, 0x2b1c), (0x2b50, 0x2b50), (0x2b55, 0x2b55), (0x3030, 0x3030), (0x303d, 0x303d),
   (0x3297, 0x3297), (0x3299, 0x3299), (0x1f004, 0x1f004), (0x1f02c, 0x1f02f),
   (0x1f094, 0x1f09f), (0x1f0af, 0x1f0b0), (0x1f0c0, 0x1f0c0), (0x1f0cf, 0x1f0d0),
   (0x1f0f6, 0x1f0ff), (0x1f170, 0x1f171), (0x1f17e, 0x1f17f), (0x1f18e, 0x1f18e),
   (0x1f191, 0x1f19a), (0x1f1ae, 0x1f1e5), (0x1f201, 0x1f20f), (0x1f21a, 0x1f21a),
   (0x1f22f, 0x1f22f), (0x1f232, 0x1f23a), (0x1f23c, 0x1f23f), (0x1f249, 0x1f25f),
   (0x1f266, 0x1f321), (0x1f324, 0x1f393), (0x1f396, 0x1f397), (0x1f399, 0x1f39b),
   (0x1f39e, 0x1f3f0), (0x1f3f3, 0x1f3f5), (0x1f3f7, 0x1f3fa), (0x1f400, 0x1f4fd),
   (0x1f4ff, 0x1f53d), (0x1f549, 0x1f54e), (0x1f550, 0x1f567), (0x1f56f, 0x1f570),
   (0x1f573, 0x1f57a), (0x1f587, 0x1f587), (0x1f58a, 0x1f58d), (0x1f590, 0x1f590),
   (0x1f595, 0x1f596), (0x1f5a4, 0x1f5a5), (0x1f5a8, 0x1f5a8), (0x1f5b1, 0x1f5b2),
   (0x1f5bc, 0x1f5bc), (0x1f5c2, 0x1f5c4), (0x1f5d1, 0x1f5d3), (0x1f5dc, 0x1f5de),
   (0x1f5e1, 0x1f5e1), (0x1f5e3, 0x1f5e3), (0x1f5e8, 0x1f5e8), (0x1f5ef, 0x1f5ef),
   (0x1f5f3, 0x1f5f3), (0x1f5fa, 0x1f64f), (0x1f680, 0x1f6c5), (0x1f6cb, 0x1f6d2),
   (0x1f6d5, 0x1f6e5), (0x1f6e9, 0x1f6e9), (0x1f6eb, 0x1f6f0), (0x1f6f3, 0x1f6ff),
   (0x1f7da, 0x1f7ff), (0x1f80c, 0x1f80f), (0x1f848, 0x1f84f), (0x1f85a, 0x1f85f),
   (0x1f888, 0x1f88f), (0x1f8ae, 0x1f8af), (0x1f8bc, 0x1f8bf), (0x1f8c2, 0x1f8cf),
   (0x1f8d9, 0x1f8ff), (0x1f90c, 0x1f93a), (0x1f93c, 0x1f945), (0x1f947, 0x1f9ff),
   (0x1fa58, 0x1fa5f), (0x1fa6e, 0x1faff), (0x1fc00, 0x1fffd)]

/-- Code points with `Indic_Conjunct_Break=Linker`. -/
def conjunctLinker : CodeTable :=
  [(0x94d, 0x94d), (0x9cd, 0x9cd), (0xacd, 0xacd), (0xb4d, 0xb4d), (0xc4d, 0xc4d),
   (0xd4d, 0xd4d), (0x1039, 0x1039), (0x17d2, 0x17d2), (0x1a60, 0x1a60), (0x1b44, 0x1b44),
   (0x1bab, 0x1bab), (0xa9c0, 0xa9c0), (0xaaf6, 0xaaf6), (0x10a3f, 0x10a3f), (0x11133, 0x11133),
   (0x113d0, 0x113d0), (0x1193e, 0x1193e), (0x11a47, 0x11a47), (0x11a99, 0x11a99),
   (0x11f42, 0x11f42)]

/-- Code points with `Indic_Conjunct_Break=Consonant`. -/
def conjunctConsonant : CodeTable :=
  [(0x915, 0x939), (0x958, 0x95f), (0x978, 0x97f), (0x995, 0x9a8), (0x9aa, 0x9b0),
   (0x9b2, 0x9b2), (0x9b6, 0x9b9), (0x9dc, 0x9dd), (0x9df, 0x9df), (0x9f0, 0x9f1),
   (0xa95, 0xaa8), (0xaaa, 0xab0), (0xab2, 0xab3), (0xab5, 0xab9), (0xaf9, 0xaf9),
   (0xb15, 0xb28), (0xb2a, 0xb30), (0xb32, 0xb33), (0xb35, 0xb39), (0xb5c, 0xb5d),
   (0xb5f, 0xb5f), (0xb71, 0xb71), (0xc15, 0xc28), (0xc2a, 0xc39), (0xc58, 0xc5a),
   (0xd15, 0xd3a), (0x1000, 0x102a), (0x103f, 0x103f), (0x1050, 0x1055), (0x105a, 0x105d),
   (0x1061, 0x1061), (0x1065, 0x1066), (0x106e, 0x1070), (0x1075, 0x1081), (0x108e, 0x108e),
   (0x1780, 0x17b3), (0x1a20, 0x1a54), (0x1b0b, 0x1b0c), (0x1b13, 0x1b33), (0x1b45, 0x1b4c),
   (0x1b83, 0x1ba0), (0x1bae, 0x1baf), (0x1bbb, 0x1bbd), (0xa989, 0xa98b), (0xa98f, 0xa9b2),
   (0xa9e0, 0xa9e4), (0xa9e7, 0xa9ef), (0xa9fa, 0xa9fe), (0xaa60, 0xaa6f), (0xaa71, 0xaa73),
   (0xaa7a, 0xaa7a), (0xaa7e, 0xaa7f), (0xaae0, 0xaaea), (0xabc0, 0xabda), (0x10a00, 0x10a00),
   (0x10a10, 0x10a13), (0x10a15, 0x10a17), (0x10a19, 0x10a35), (0x11103, 0x11126),
   (0x11144, 0x11144), (0x11147, 0x11147), (0x11380, 0x11389), (0x1138b, 0x1138b),
   (0x1138e, 0x1138e), (0x11390, 0x113b5), (0x11900, 0x11906), (0x11909, 0x11909),
   (0x1190c, 0x11913), (0x11915, 0x11916), (0x11918, 0x1192f), (0x11a00, 0x11a00),
   (0x11a0b, 0x11a32), (0x11a50, 0x11a50), (0x11a5c, 0x11a83), (0x11f04, 0x11f10),
   (0x11f12, 0x11f33)]

end ActionUnits.Text.Table
