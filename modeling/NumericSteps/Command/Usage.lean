import NumericSteps.Command.Basic

namespace NumericSteps.Usage

def version : String := "polyflow 0.1.0\n"

def commandLine : CommandName → String
  | .svd => "svd [--thin]"
  | .mult => "mult"
  | .cmp => "cmp"
  | .subtract => "subtract"
  | .gen => "gen <N> [-s|--seed <SEED>]"
  | .validate => "validate <PATH>"

def purpose : CommandName → String
  | .svd => "Decompose a matrix from stdin into U, S, and VT files"
  | .mult => "Multiply the U, S, and VT files and print the product"
  | .cmp => "Fail unless matrix_in and matrix_out agree within tolerance"
  | .subtract => "Take one gradient step from approx_old and grad"
  | .gen => "Print a random n×n matrix with values in [0, 1)"
  | .validate => "Validate a config (.toml) or a matrix file"

def options : String :=
  "Options:\n" ++
  "  -C, --workdir <WORKDIR>  Working directory holding the contract files [default: .]\n" ++
  "  -c, --config <CONFIG>    Optional TOML config (tolerances, learning rate, file names)\n" ++
  "      --events <EVENTS>    Append every step event as JSON to this file\n" ++
  "  -v, --verbose            Log step events to stderr\n" ++
  "  -h, --help               Print help\n"

def commands : String :=
  String.join (CommandName.all.map fun c => "  " ++ c.text ++ "  " ++ purpose c ++ "\n")

def help : Option CommandName → String
  | none =>
    "polyflow — file-based numeric workflow steps\n\nUsage: polyflow [OPTIONS] <COMMAND>\n\n" ++
      "Commands:\n" ++ commands ++ "\n" ++ options ++ "  -V, --version            Print version\n"
  | some c =>
    purpose c ++ "\n\nUsage: polyflow " ++ commandLine c ++ " [OPTIONS]\n\n" ++ options

def misuse : String :=
  "error: the arguments cannot be understood\n\nUsage: polyflow [OPTIONS] <COMMAND>\n\n" ++
    "For more information, try '--help'.\n"

end NumericSteps.Usage
