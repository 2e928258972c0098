/-!
The upper tail of the standard normal distribution, by rational approximations of the complementary
error function on intervals. The constants of the approximations have ten digits, so the tail is
right to about eleven decimal places.
-/

namespace BenchLedger.Analysis

-- The value of a polynomial; the constant coefficient comes first.
def polynomial (coefficients : List Float) (x : Float) : Float :=
  coefficients.foldr (fun c sum => c + sum * x) 0

/-- On an interval up to `stop`,
`erfc x = exp (-x²) / x · (constant + P (x - start) / Q (x - start))`. -/
structure TailPiece where
  start : Float
  stop : Float
  constant : Float
  numerator : List Float
  denominator : List Float

def tailPieces : List TailPiece := [
  { start := 0.5
    stop := 0.75
    constant := 0.3440242112
    numerator := [-0.0361790390718262471360258, 0.292251883444882683221149,
      0.281447041797604512774415, 0.125610208862766947294894, 0.0274135028268930549240776,
      0.00250839672168065762786937]
    denominator := [1, 1.8545005897903486499845, 1.43575803037831418074962,
      0.582827658753036572454135, 0.124810476932949746447682, 0.0113724176546353285778481] },
  { start := 0.75
    stop := 1.25
    constant := 0.419990927
    numerator := [-0.0397876892611136856954425, 0.153165212467878293257683,
      0.191260295600936245503129, 0.10276327061989304213645, 0.029637090615738836726027,
      0.0046093486780275489468812, 0.000307607820348680180548455]
    denominator := [1, 1.95520072987627704987886, 1.64762317199384860109595,
      0.768238607022126250082483, 0.209793185936509782784315, 0.0319569316899913392596356,
      0.00213363160895785378615014] },
  { start := 1.25
    stop := 2.25
    constant := 0.4898625016
    numerator := [-0.0300838560557949717328341, 0.0538578829844454508530552,
      0.0726211541651914182692959, 0.0367628469888049348429018, 0.00964629015572527529605267,
      0.00133453480075291076745275, 0.778087599782504251917881e-4]
    denominator := [1, 1.75967098147167528287343, 1.32883571437961120556307,
      0.552528596508757581287907, 0.133793056941332861912279, 0.0179509645176280768640766,
      0.00104712440019937356634038, -0.106640381820357337177643e-7] },
  { start := 2.25
    stop := 3.5
    constant := 0.5317370892
    numerator := [-0.0117907570137227847827732, 0.014262132090538809896674,
      0.0202234435902960820020765, 0.00930668299990432009042239, 0.00213357802422065994322516,
      0.00025022987386460102395382, 0.120534912219588189822126e-4]
    denominator := [1, 1.50376225203620482047419, 0.965397786204462896346934,
      0.339265230476796681555511, 0.0689740649541569716897427, 0.00771060262491768307365526,
      0.000371421101531069302990367] },
  { start := 3.5
    stop := 5.25
    constant := 0.5489973426
    numerator := [-0.00546954795538729307482955, 0.00404190278731707110245394,
      0.0054963369553161170521356, 0.00212616472603945399437862, 0.000394984014495083900689956,
      0.365565477064442377259271e-4, 0.135485897109932323253786e-5]
    denominator := [1, 1.21019697773630784832251, 0.620914668221143886601045,
      0.173038430661142762569515, 0.0276550813773432047594539, 0.00240625974424309709745382,
      0.891811817251336577241006e-4, -0.465528836283382684461025e-11] }]

-- Numerator and denominator of the error function divided by `x`, less 1.125, below 1/2.
def centerNumerator : List Float :=
  [0.00337916709551257388990745, -0.00073695653048167948530905, -0.374732337392919607868241,
    0.0817442448733587196071743, -0.0421089319936548595203468, 0.0070165709512095756344528,
    -0.00495091255982435110337458, 0.000871646599037922480317225]

def centerDenominator : List Float :=
  [1, -0.218088218087924645390535, 0.412542972725442099083918, -0.0841891147873106755410271,
    0.0655338856400241519690695, -0.0120019604454941768171266, 0.00408165558926174048329689,
    -0.000615900721557769691924509]

-- The power series of the exponential from its `n`-th term on.
def expSeries (y : Float) : Nat → Float → Float → Float → Float
  | 0, _, _, sum => sum
  | fuel + 1, n, term, sum =>
    let term := term * y / n
    expSeries y fuel (n + 1) term (sum + term)

-- The exponential of a number between -32 and 0, as the 64th power of that of its 64th part.
def expNegative (y : Float) : Float :=
  let root := expSeries (y / 64) 20 1 1 1
  let power4 := root * root * (root * root)
  let power16 := power4 * power4 * (power4 * power4)
  power16 * power16 * (power16 * power16)

-- The complementary error function of a number of at least 1/2.
def erfcFar (x : Float) : Float :=
  match tailPieces.find? fun p => x < p.stop with
  | some p =>
    let ratio := polynomial p.numerator (x - p.start) / polynomial p.denominator (x - p.start)
    let g := expNegative (-(x * x)) / x
    g * p.constant + g * ratio
  | none => 0

-- The error function of a number between 0 and 1/2.
def erfNear (x : Float) : Float :=
  x * 1.125 + x * polynomial centerNumerator x / polynomial centerDenominator x

/-- The probability that a standard normal variable lies above `z`, for `z` not negative. -/
def upperTail (z : Float) : Float :=
  let x := z / 1.4142135623730951
  if x.isNaN then x
  else if x < 0.5 then 1 - 0.5 * (1 + erfNear x)
  else 1 - 0.5 * (2 - erfcFar x)

end BenchLedger.Analysis
