/-!
# ReactWeave.Text.ClassTable

The Unicode characters by **general category**, as the lengths of runs of
characters of one class. Each run is its length in hexadecimal digits and a
letter: `L` letters, `N` letter numbers, `D` decimal digits, `R` other numbers,
`M` spacing and non-spacing marks, `P` connector punctuation, `X` the categories
Other and Separator, `O` all else. Version 14 of the character database.
-/

namespace ReactWeave.Text

/-- Runs of characters of one class, from U+0000 on. -/
def classRuns : List String :=
  ["21XfOaD7O1aL4O1P1O1aL4O22X9O1L2O1X4O2R1O1L3O1R1L1O3R1O17L1O1fL1O1caL4OcLeO5L7O1L1O1L11O70M5L",
   "1O2L2X4L1O1L4X2O1L1O3L1X1L1X14L1X53L1O8bL1O5M2Oa6L1X26L2X1L6O29L2O2X3O1X2dM1O1M1O2M1O2M1O1M8",
   "X1bL4X4L2O11XaObM1O1X3O2bL15MaD4O2L1M63L1O1L7M1X1O6M2L2M1O4M2LaD3L2O1LeO2X1L1M1eL1bM2X59LbM1",
   "LeXaD21L9M2L4O1L2X1M2O16L4M1L9M1L3M1L5M2XfO1X19L3M2X1O1XbL5X18L1O6L9X8M2aL18M1X21M36L3M1L12M",
   "1L7MaL2M2OaD1O10L3M1X8L2X2L2X16L1X7L1X1L3X4L2X1M1L7M2X2M2X3M1L8X1M4X2L1X3L2M2XaD2L2O6R2O1L1O",
   "1M2X3M1X6L4X2L2X16L1X7L1X2L1X2L1X2L2X1M1X5M4X2M2X3M3X1M7X4L1X1L7XaD2M3L1M1OaX3M1X9L1X3L1X16L",
   "1X7L1X2L1X5L2X1M1L8M1X3M1X3M2X1LfX2L2M2XaD2O7X1L6M1X3M1X8L2X2L2X16L1X7L1X2L1X5L2X1M1L7M2X2M2",
   "X3M7X3M4X2L1X3L2M2XaD1O1L6RaX1M1L1X6L3X3L1X4L3X2L1X1L1X2L3X2L3X3L3XcL4X5M3X3M1X4M2X1L6X1MeXa",
   "D3R8O5X5M8L1X3L1X17L1X10L2X1M1L7M1X3M1X4M7X2M1X3L2X1L2X2L2M2XaD7X1O7R1O1L3M1O8L1X3L1X17L1XaL",
   "1X5L2X1M1L7M1X3M1X4M7X2M6X2L1X2L2M2XaD1X2LdX4M9L1X3L1X29L2M1L7M1X3M1X4M1L1O4X3L1M7R3L2M2XaD9",
   "R1O6L1X3M1X12L3X18L1X9L1X1L2X7L3X1M4X6M1X1M1X8M6XaD2X2M1OcX30L1M2L7M4X1O7L8M1OaD2O25X2L1X1L1",
   "X5L1X18L1X1L1XaL1M2L9M1L2X5L1X1L1X6M2XaD2X4L20X1L17O2M6OaDaR1O1M1O1M1O1M4O2M8L1X24L4X14M1O2M",
   "5LbM1X24M1X8O1M6O1XdO25X2bL14M1LaD6O6L4M4L3M1L3M2L7M3L4MdLcM1L1MaD4M2O26L1X1L5X1L2X2bL1O14dL",
   "1X4L2X7L1X1L1X4L2X29L1X4L2X21L1X4L2X7L1X1L1X4L2XfL1X39L1X4L2X43L2X3M9O14R3X10LaO6X56L2X6L2X1",
   "O26cL2O11L1X1aL2O3X4bL3O3N8L7X12L4M9X13L3M2O9X12L2McXdL1X3L1X2McX34L20M3O1L4O1L1M2XaD6XaR6Xb",
   "O3M1X1MaD6X59L7X5L2M22L1M1L5X46LaX1fL1XcM4XcM4X1O3X2OaD1eL2X5LbX2cL4X1aL6XaD1R3X22O17L5M2X2O",
   "35LaM1X1dM2X1MaD6XaD6X7O1L6O2XeM1O10M31X5M2fL11M8L3XaD11O9MbO1X3M1eLdM2LaD2cLeM8X4O24L14M3X5",
   "OaD3X3LaD24L2O9L7X2bL2X3L8O8X3M1O15M4L1M6L1M2L3M1L5Xc0L40M116L2X6L2X26L2X6L2X8L1X1L1X1L1X1L1",
   "X1fL2X35L1X7L1O1L3O3L1X7L3O4L2X6L1X3OdL3O2X3L1X7L2O11X18O8XfO2P13O1PaO11X1R1L2X6R5O1LaR5O1Xd",
   "L3X21OfXdM4O1M3OcMfX2O1L4O1L2OaL1O1L3O5L6O1L1O1L1O1L1O4L1ObL2O4L5O5L4O1L1O10R23N2L4N1R2O4X29",
   "7O19XbO15X3cR4eO16R276O1eR3e0O2X20O1X69Oe5L6O4L3M2L5X4O1R2O26L1X1L5X1L2X38L7X1L1OeX1M17L9X7L",
   "1X7L1X7L1X7L1X7L1X7L1X7L1X7L1X20M2fO1L2eO22X1aO1X59OcXd6O1aXcO5X4O2L1N19O9N6M1O5L2O3N2L3O1X5",
   "6L2X2M2O3L1O5aL1O4L5X2bL1X5eL1X2O4RaO20L24OcX10L1fO1XaR1eO8R1OfR20OaR27OfR140O19c0L40O568dL3",
   "X37O9X2eL2O10dL3O10LaD2L14X2fL1M4OaM1O1fL2M46LaN2M6O8X17O9L2O67L2O40L5X2L1X1L1X5L18X10L1M3L1",
   "M4L1M17L5M4O1M3X6R4O6X34L4O8X2M32L12M8X2OaD6X12M6L3O1L1O2L1MaD1cL8M2O17LdMbX1O1dL3X4M2fLeMdO",
   "1X1LaD4X2O5L1MaLaD5L1X29LeM9X3L1M8L2M2XaD2X4O17L3O1L3M32L1M1L3M2L2M5L2M1L1M1L18X3L2ObL5M2O3L",
   "2MaX6L2X6L2X6L9X7L1X7L1X2bL1OeL2O4X73L8M1O2M2XaD6X2ba4LcX17L4X31L2104X16eL2X6aL26X7LcX5L5X1L",
   "1MaL1OdL1X5L1X1L1X2L1X2L1X6cL11O10X16bL12O40L2X36L7X1O20XcL4O10MaO6X10M3O2P18O3P3O1X13O1X4O4",
   "X5L1X87L4XfOaD7O1aL4O1P1O1aLbO59L3X6L2X6L2X6L2X3L3X7O1X7OdX2O2XcL1X1aL1X13L1X2L1XfL2XeL22X7b",
   "L5X3O4X2dR3X9O35N4R11O2R3O1XdO3X1O2fX2dO1M82X1dL3X31LfX1M1bR4X20L4R9X14L1N8L1N5X26L5M5X1eL1X",
   "1O24L4X8L1O5N2aX9eL2XaD6X24L4X24L4X28L8X34LbX1ObL1XfL1X7L1X2L1XbL1XfL1X7L1X2L43X137L9X16LaX8",
   "L18X6L1X2aL1X9L45X6L2X1L1X2cL1X2L3X1L2X17L1X1O8R17L2O7R1fL8X9R30X13L1X2L5X5R16L6R3X1O1aL5X1O",
   "40X38L4X2R2L10R2X2eR1L3M1X2M5X4M4L1X3L1X1dL2X3M4X1M9R7X9O7X1dL2R1O1dL3R20X8L1O1cL2M4X5R7O9X3",
   "6L3X7O16L2X8R13L5X8R12L7X4OcX7R50X49L37X33LdX33L7X6R24L4M8XaD126X1fR1X2aL1X2M1O2X2L4eX1dLaR1",
   "L8X16LbM4R5O16X12L4M4O26X15L7R14X17L9X3M35LfM7O4X14RaD1M2L2M1L9X4M2dLbM2O1X4O1MdX19L7XaD6X3M",
   "24LeM1XaD4O1L2M1L8X23L1M2O1L9X3M30LeM4L4O4M1O2MaD1L1O1L3O1X14RbX12L1X19LcM6O1M41X7L1X1L1X4L1",
   "XfL1XaL1O6X2fLcM5XaD6X4M1X8L2X2L2X16L1X7L1X2L1X5L1X2M1L7M2X2M2X3M2X1L6X1M5X5L2M2X7M3X5M8bX35",
   "L12M4L5OaD2O1X1O1M3L1eX30L14M2L1O1L8XaDa6X2fL7M2X9M17O4L2M22X30L11M3O1LbXaD6XdO13X2bLdM1L1O6",
   "XaD36X1bL2XfM4XaD2R4O7Lb9X2cLfM1O64X40LaD9RcX8L2X1L2X8L1X2L1X18L6M1X2M2X4M1L1M1L2M3O9XaD46X8",
   "L2X27L7M2X7M1L1O1L1M1bX1LaM28L7M1L4M8O1M8X1LbM2eL10M3O1L5OdX49L107X9L1X25L8M1X8M1L5OaXaD13R3",
   "X2O1eL2X16M1XeM49X7L1X2L1X26L6M3X1M1X2M1X7M1L1M8XaD6X6L1X2L1X20L5M1X2M1X5M1L7XaD136X13L4M2Ob",
   "7X1LfX15R1dOdX1O39aL66X6fN1X5ObXc4La4cX61L2OdX42fLfd1X247L21b9X239L7X1fL1XaD4X2O4fL1XaD6X1eL",
   "2X5M1OaX30L7M9O4L2OaXaD1X7R1X15L5X13L2b0X40L17R4O65X4bL4X1M1L37M7X4MdL40X2L1O1L1MbX2MeX17f8L",
   "8X4d6L2aX9L22e7X4L1X7L1X2L1X123L2dX3L11X4L8X18cL904X6bL5XdL3X9L7XaL2X1O2M1O1260X2eM2X17M9X74",
   "O3cXf6OaX27O2X3cO5M3O6M8X8M2O7M1eO4M3dO15X42O3M1O9aX14RcX57O9X19R87X55L1X47L1X2L2X1L2X2L2X4L",
   "1XcL1X1L1X7L1X41L1X4L2X8L1X7L1X1cL1X4L1X5L1X1L3X7L1X154L2X19L1O19L1O1fL1O19L1O1fL1O19L1O1fL1",
   "O19L1O1fL1O19L1O8L2X32D200O37M4O32M8O1MeO1M7OfX5M1XfM450X1fLe1X7M1X11M2X7M1X2M1X5Md5X2dL3X7M",
   "7L2XaD4X1L1O140X1eL1M11X2cL4MaD5X1O4e0X7L1X4L1X2L1XfL1Xc5L2X9R7M29X44L7M1L4XaD4X2O311X3bR1O3",
   "R1O4R4cX2dR1OfRc2X4L1X1bL1X2L1X1L2X1L1XaL1X4L1X1L1X1L6X1L4X1L1X1L1X1L1X3L1X2L1X1L2X1L1X1L1X1",
   "L1X1L1X1L1X2L1X1L2X4L1X7L1X4L1X4L1X1L1XaL1X11L5X3L1X5L1X11L34X2O10eX2cO4X64OcXfO2XfO1XfO1X25",
   "OaXdRa1O38X1dOdX2cO4X9O7X2OeX6O9aX3d8O5X10O3XdO3X74OcX59O7XcO4X1OfXcO4X38O8XaO6X28O8X1eO2X2O",
   "4eX154OcXeO2X5O3X5O3X7O9X1dO3XbO5X6OaXaO6X8O8X7O9X93O1X37O25XaD406Xa6e0L20X1039L7XdeL2X1682L",
   "eX1d31Lc1fX21eL5e2X134bLaedb5Xf0M2fe10X"]

end ReactWeave.Text
