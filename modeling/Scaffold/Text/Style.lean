import Scaffold.Text.Basic

namespace Scaffold

inductive Style where
  | bold | dimmed | red | green | yellow | cyan
deriving DecidableEq, Repr

namespace Style

def number : Style → Text
  | bold => "1"
  | dimmed => "2"
  | red => "31"
  | green => "32"
  | yellow => "33"
  | cyan => "36"

def code (s : Style) : Text := "\x1b[" ++ s.number ++ "m"

def reset : Text := "\x1b[0m"

def resume (s : Style) : Text → Text
  | '\x1b' :: '[' :: '0' :: 'm' :: t => reset ++ s.code ++ resume s t
  | c :: t => c :: resume s t
  | [] => []

def paint (s : Style) (colour : Bool) (t : Text) : Text :=
  if colour then s.code ++ s.resume t ++ reset else t

end Style

end Scaffold
