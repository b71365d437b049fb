import SumCalc.Config

/-!
# Usage texts

The usage of the command and its help, for lines of eighty characters.
-/

namespace SumCalc.CommandLine

/-- How the command is called. -/
def usage : String := String.join [
  "usage: intexpr [-h] [--file FILE] [--int-bits \x7b8,16,32,64\x7d]\n",
  "               [--overflow \x7bfail,wrap\x7d] [--builder \x7brecursive,stack\x7d]\n",
  "               [--format \x7binfix,tree\x7d] [--json] [-v]\n",
  "               [EXPR ...]\n"]

/-- The source that is evaluated when there is no other. -/
def sample : String := "54+(2+89)"

/-- What the command and its switches are for. The width is the default of the environment. -/
def help (width : Width) : String := usage ++ String.join [
  "\nParse and evaluate integer addition expressions\n\npositional arguments:\n",
  "  EXPR                  Expression to evaluate (default: " ++ sample ++ ")\n\noptions:\n",
  "  -h, --help            show this help message and exit\n",
  "  --file FILE           Read one expression per non-blank line\n",
  "  --int-bits \x7b8,16,32,64\x7d\n",
  "                        Signed integer width for literals and sums (default:\n",
  "                        " ++ toString width.bits ++ ")\n",
  "  --overflow \x7bfail,wrap\x7d\n",
  "                        On addition overflow: fail with an error or wrap\n",
  "                        (two's complement)\n",
  "  --builder \x7brecursive,stack\x7d\n",
  "                        Tree builder: recursive (default) or the post-order\n",
  "                        stack builder\n",
  "  --format \x7binfix,tree\x7d\n",
  "                        How to render the expression tree\n",
  "  --json                Emit one JSON object per input\n",
  "  -v, --verbose         Enable debug logging on stderr\n"]

end SumCalc.CommandLine
