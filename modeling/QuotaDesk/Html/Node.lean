import QuotaDesk.Html.Escape
import QuotaDesk.Text.Blank

/-! HTML trees and their text. The marker `<!>` keeps parts apart that would
otherwise run together: it stands between two texts in a row, after a list of
parts, and in place of an absent part. -/

namespace QuotaDesk.Html

inductive Attribute
  | value (name value : String)
  | flag (name : String) (on : Bool)
  deriving DecidableEq, Repr

namespace Attribute

def cssClass (names : String) : Attribute :=
  .value "class" (Text.trim names)

def render : Attribute → String
  | .value name v => " " ++ name ++ "=\"" ++ escape v ++ "\""
  | .flag name on => if on then " " ++ name else ""

def renderAll (attributes : List Attribute) : String :=
  String.join (attributes.map render)

end Attribute

/-- `markup` holds markup already rendered; `list` is a run of like parts. -/
inductive Node
  | text (s : String)
  | element (tag : String) (attributes : List Attribute) (children : List Node)
  | markup (tag : String) (attributes : List Attribute) (inner : String)
  | void (tag : String) (attributes : List Attribute)
  | list (items : List Node)
  | fragment (items : List Node)
  | absent
  deriving Repr

namespace Node

def marker : String := "<!>"

def renderText (afterText : Bool) (s : String) : String :=
  (if afterText then marker else "") ++ (if s.isEmpty then " " else escapeText s)

def openTag (tag : String) (attributes : List Attribute) : String :=
  "<" ++ tag ++ Attribute.renderAll attributes ++ ">"

def closeTag (tag : String) : String :=
  "</" ++ tag ++ ">"

mutual

/-- The text of a node behind a text or not, and whether it ends in a text. -/
def renderAfter (afterText : Bool) : Node → String × Bool
  | .text s => (renderText afterText s, true)
  | .element tag attributes children =>
    (openTag tag attributes ++ (renderItems false children).1 ++ closeTag tag, false)
  | .markup tag attributes inner => (openTag tag attributes ++ inner ++ closeTag tag, false)
  | .void tag attributes => (openTag tag attributes, false)
  | .list items => ((renderItems afterText items).1 ++ marker, false)
  | .fragment items => renderItems afterText items
  | .absent => (marker, false)

def renderItems (afterText : Bool) : List Node → String × Bool
  | [] => ("", afterText)
  | n :: rest =>
    let (front, afterText) := renderAfter afterText n
    let (back, afterText) := renderItems afterText rest
    (front ++ back, afterText)

end

def render (n : Node) : String :=
  (renderAfter false n).1

def plain (tag : String) (children : List Node) : Node :=
  .element tag [] children

def labelled (tag label : String) : Node :=
  plain tag [.text label]

def link (href label : String) : Node :=
  .element "a" [.value "href" href] [.text label]

end Node
end QuotaDesk.Html
