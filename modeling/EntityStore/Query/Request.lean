import EntityStore.Text.Hex
import EntityStore.Text.Utf8
/-!
# Query requests

The options of a query as texts, and reading them from a URL query string.
-/
namespace EntityStore

open EntityStore.Text

namespace Percent

/-- The value of a hexadecimal digit among octets. -/
def octetValue? (b : Nat) : Option Nat := if b < 0x80 then hexValue? (Char.ofNat b) else none

/-- Undoes percent escapes and reads `+` as a blank; a percent sign without two digits after it stays. -/
def decodeOctets : List Nat → List Nat
  | [] => []
  | b :: rest =>
    if b = 0x2B then 0x20 :: decodeOctets rest
    else if b = 0x25 then
      match rest with
      | h :: l :: rest' =>
        match octetValue? h, octetValue? l with
        | some high, some low => (high * 16 + low) :: decodeOctets rest'
        | _, _ => b :: decodeOctets (h :: l :: rest')
      | rest' => b :: decodeOctets rest'
    else b :: decodeOctets rest
termination_by octets => octets.length

def decode (cs : List Char) : List Char := Text.decode (decodeOctets (Text.encode cs))

end Percent

/-- The options of a query as decoded texts. -/
structure Request where
  filter : Option String := none
  top : Option String := none
  skip : Option String := none
  orderBy : Option String := none
  expand : Option String := none
  select : Option String := none
  inlineCount : Option String := none
  keywords : Option String := none
  deriving DecidableEq, Repr

namespace Request

/-- Sets the option of a name, unless it is set; other names are passed over. -/
def add (r : Request) (name : String) (value : String) : Request :=
  match name with
  | "$filter" => { r with filter := r.filter <|> some value }
  | "$top" => { r with top := r.top <|> some value }
  | "$skip" => { r with skip := r.skip <|> some value }
  | "$orderby" => { r with orderBy := r.orderBy <|> some value }
  | "$expand" => { r with expand := r.expand <|> some value }
  | "$select" => { r with select := r.select <|> some value }
  | "$inlinecount" => { r with inlineCount := r.inlineCount <|> some value }
  | "q" => { r with keywords := r.keywords <|> some value }
  | _ => r

/-- The name and the value of a pair, decoded; without an equals sign the value is empty. -/
def ofPair (pair : List Char) : String × String :=
  (.ofList (Percent.decode (pair.takeWhile (· != '='))),
    .ofList (Percent.decode ((pair.dropWhile (· != '=')).drop 1)))

/-- The options of a URL query string; of a repeated one the first counts. -/
def ofQueryString (text : String) : Request :=
  let cs := match text.toList with
    | '?' :: rest => rest
    | cs => cs
  let pairs := (cs.splitOn '&').filter fun pair => !pair.isEmpty
  pairs.foldl (fun r pair => r.add (ofPair pair).1 (ofPair pair).2) {}

end Request

end EntityStore
