import SicAssembler.ObjectLine
import SicAssembler.Text.Column

/-! # Listings

A listing shows every statement with its line number, its address and its object code.
-/

namespace SicAssembler

structure ListingLine where
  line : Nat
  address : Nat
  source : String
  /-- The object code in hexadecimal, empty if there is none. -/
  object : String
deriving DecidableEq, Repr

namespace ListingLine

def render (line : ListingLine) : String :=
  Text.alignRight 5 (toString line.line) ++ "  " ++ Text.hexColumn 6 line.address ++ "  " ++
    Text.alignLeft 40 line.source ++ " " ++ line.object

def ofObjectLine (line : ObjectLine) : ListingLine where
  line := line.source.line
  address := line.address
  source := String.ofList (Text.trim line.source.source.toList)
  object := Text.hexOfBytes line.bytes

end ListingLine

/-- The title of a listing and the rule below it. -/
def listingTitle : String :=
  "Line   Loc     Source                                   Object code\n" ++
    String.ofList (List.replicate 72 '-') ++ "\n"

/-- A whole listing. No line ends with blank characters. -/
def renderListing (lines : List ListingLine) : String :=
  lines.foldl
    (fun text line => text ++ String.ofList (Text.trimEnd line.render.toList) ++ "\n") listingTitle

end SicAssembler
