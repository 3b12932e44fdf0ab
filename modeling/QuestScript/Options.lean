import QuestScript.Label
import QuestScript.Number.Double
import QuestScript.Text.Width

/-! Options for reading scripts. -/

namespace QuestScript

/-- A fifth, the most that a ratio may be unless options say otherwise. -/
def defaultRatio : Double := .ofRatio 1 5

/-- Limits beyond which a range is not taken for instructions. -/
structure Thresholds where
  maxTotalNops : Nat := 20
  maxSequentialNops : Nat := 10
  maxUnknownOpcodeRatio : Double := defaultRatio
  maxPopWithoutPushRatio : Double := defaultRatio
  maxUnknownLabelRatio : Double := defaultRatio
deriving DecidableEq, Repr

/-- Labels that the virtual machine provides, so that no table has to. -/
def builtinLabels : LabelSet :=
  [60, 70, 80, 90, 100, 110, 120, 130, 140, 800, 810, 820, 830, 840, 850, 860, 900, 910, 920, 930,
    940, 950, 960]

/-- How a script is read. -/
structure ParseOptions where
  width : CharWidth := .wide
  /-- Whether errors are reported and passed over. -/
  lenient : Bool := false
  /-- Values that a reference may have before it counts as unresolved. -/
  cardinalityBound : Nat := 20
  builtinLabels : LabelSet := QuestScript.builtinLabels
  thresholds : Thresholds := {}
deriving DecidableEq, Repr

/-- Numeric equality of limits. -/
def Thresholds.same (a b : Thresholds) : Bool :=
  a.maxTotalNops == b.maxTotalNops && a.maxSequentialNops == b.maxSequentialNops &&
    a.maxUnknownOpcodeRatio.same b.maxUnknownOpcodeRatio &&
    a.maxPopWithoutPushRatio.same b.maxPopWithoutPushRatio &&
    a.maxUnknownLabelRatio.same b.maxUnknownLabelRatio

/-- Numeric equality of options. -/
def ParseOptions.same (a b : ParseOptions) : Bool :=
  a.width == b.width && a.lenient == b.lenient && a.cardinalityBound == b.cardinalityBound &&
    a.builtinLabels == b.builtinLabels && a.thresholds.same b.thresholds

end QuestScript
