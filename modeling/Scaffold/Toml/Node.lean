import Scaffold.Text.Basic

namespace Scaffold.Toml

structure Span where
  start : Nat
  stop : Nat
deriving DecidableEq, Repr

structure Key where
  text : Text
  span : Span
deriving DecidableEq, Repr

/-- How a table came to be: by a header of its own, by a longer header, by a dotted key, or as a
value between braces. -/
inductive Form where
  | header | implied | dotted | inline
deriving DecidableEq, Repr

/-- A value. Tables that are only implied have no place of their own. An array that is open is
made of headers in double brackets, and later headers may add to it. Of a floating point number only
its text matters, and of a date or a time nothing does. -/
inductive Node where
  | string (span : Span) (t : Text)
  | integer (span : Span) (n : Int)
  | float (span : Span) (t : Text)
  | boolean (span : Span) (b : Bool)
  | moment (span : Span)
  | array (span : Span) (isOpen : Bool) (items : List Node)
  | table (span : Option Span) (form : Form) (entries : List (Key × Node))

abbrev Entries := List (Key × Node)

def Node.span? : Node → Option Span
  | string s _ | integer s _ | float s _ | boolean s _ | moment s | array s _ _ => some s
  | table s _ _ => s

namespace Entries

def has (es : Entries) (k : Text) : Bool := es.any fun e => e.1.text == k

def get? (es : Entries) (k : Text) : Option Node :=
  (es.find? fun e => e.1.text == k).map Prod.snd

def erase (es : Entries) (k : Text) : Entries := es.filter fun e => e.1.text != k

def replace (es : Entries) (k : Text) (n : Node) : Entries :=
  es.map fun e => if e.1.text = k then (e.1, n) else e

end Entries

end Scaffold.Toml
