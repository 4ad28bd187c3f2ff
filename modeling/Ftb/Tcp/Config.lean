import Ftb.Def
import Ftb.Lib.Buffer

/-!
# The configuration file (`ftb_network_sock.h`)

`FTBNI_get_data_from_config_file`, cell by cell. A cell of `line` that was never written has no value,
and `fgets` writes only the cells up to its NUL: behind it stands what was there before. Reading a
cell without a value, or one behind the array, makes the whole call have none.
-/

open Buffer

namespace FTBNI

def nul : Char := '\x00'

/-- `FTBNI_CONFIG_FILE_VAL`. -/
def configFileVal : Nat := 128

abbrev Line := List (Option Char)

/-- The string in `line`. -/
def text : Line → Option CStr
  | [] => none
  | none :: _ => none
  | some c :: line => if c = nul then some [] else (text line).map (c :: ·)

/-- A `FILE` that is read. -/
structure File where
  rest : List Char
  eof : Bool
  deriving DecidableEq, Repr

/-- The characters that `fgets` takes, `n` at most. -/
def getChars : Nat → List Char → List Char × File
  | 0, rest => ([], ⟨rest, false⟩)
  | _ + 1, [] => ([], ⟨[], true⟩)
  | n + 1, c :: rest =>
    if c = '\n' then ([c], ⟨rest, false⟩)
    else (c :: (getChars n rest).1, (getChars n rest).2)

/-- `fgets(line, size, fp)`. -/
def fgets (line : Line) (size : Nat) (fp : File) : Line × File :=
  match getChars (size - 1) fp.rest with
  | ([], fp) => (line, fp)
  | (chars, fp) => (chars.map some ++ some nul :: line.drop (chars.length + 1), fp)

/-- `while (*pos++ != '=')`. -/
def scan (line : Line) : Nat → Nat → Option Nat
  | 0, _ => none
  | n + 1, pos => do
    let c ← ((line)[pos]?).join
    if c ≠ '=' then scan line n (pos + 1) else pure (pos + 1)

/-- The loop over the file: the line that has the key, with `pos` behind the `=`. -/
def searchLoop (str : CStr) : Nat → Line → File → Option (Option (Line × Nat))
  | 0, _, _ => none
  | n + 1, line, fp =>
    if fp.eof then some none
    else do
      let (line, fp) := fgets line configFileVal fp
      match strstr (← text line) str with
      | some pos => do
        let pos ← scan line line.length pos
        pure (some (line, pos))
      | none => searchLoop str n line fp

def search (str : CStr) (content : List Char) : Option (Option (Line × Nat)) :=
  searchLoop str (content.length + 2) (List.replicate configFileVal none) ⟨content, false⟩

/-- `FTBNI_get_data_from_config_file`: `output_val` and `*retval` afterwards. The file is `none` if
`fopen` fails. -/
def getDataFromConfigFile (str : CStr) (file : Option (List Char)) (outputVal : CStr) (retval : Int) :
    Option (CStr × Int) :=
  match file with
  | none => some (outputVal, -1)
  | some content => do
    match ← search str content with
    | some (line, pos) => do
      let outputVal ← text (line.drop pos)
      pure (outputVal, retval)
    | none => pure (outputVal, -1)

end FTBNI
