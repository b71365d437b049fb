import SumCalc.Config
import SumCalc.Text.Numeral

/-!
# Configurations from the environment

Three environment variables supply a configuration. A variable that is not set or empty leaves its
setting at the default.
-/

namespace SumCalc

/-- The environment variables that are set, with their texts. -/
abbrev Environment := List (String × String)

namespace Environment

def widthVariable : String := "INTEXPR_INT_BITS"

def overflowVariable : String := "INTEXPR_OVERFLOW"

def builderVariable : String := "INTEXPR_BUILDER"

/-- The text of a variable, if it is set and not empty. -/
def setting? (environment : Environment) (name : String) : Option String :=
  (environment.lookup name).filter fun text => !text.isEmpty

/-- The number of bits that the environment asks for. -/
def bits (environment : Environment) : Except ConfigFault Int :=
  match environment.setting? widthVariable with
  | none => .ok ({} : Config).width.bits
  | some text =>
      match Text.Numeral.read? text with
      | some n => .ok n
      | none => .error (.noInteger widthVariable text)

/-- The configuration that the environment supplies. -/
def config (environment : Environment) : Except ConfigFault Config := do
  let bits ← environment.bits
  let overflow := (environment.setting? overflowVariable).getD ({} : Config).overflow.name
  let builder := (environment.setting? builderVariable).getD ({} : Config).builder.name
  Config.ofSettings bits overflow builder

end Environment

end SumCalc
