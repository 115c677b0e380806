/-!
# Quoted literals

A literal stands between single quotes; a single quote inside it is written twice.
-/

namespace SessionBroker.Text.Quoted

/-- The body of a literal: each single quote doubled. -/
def encode : List Char → List Char
  | [] => []
  | c :: rest => if c = '\'' then '\'' :: '\'' :: encode rest else c :: encode rest

/-- The text of a body; refuses a single quote that stands alone. -/
def decode : List Char → Option (List Char)
  | [] => some []
  | ['\''] => none
  | c :: d :: rest =>
    if c = '\'' then
      if d = '\'' then (decode rest).map ('\'' :: ·) else none
    else (decode (d :: rest)).map (c :: ·)
  | [c] => some [c]

/-- The literal that stands for a text. -/
def quote (s : List Char) : List Char := '\'' :: (encode s ++ ['\''])

/-- The text a literal stands for; nothing unless it opens and closes with quotes of its own. -/
def parse? : List Char → Option (List Char)
  | '\'' :: rest =>
    match rest.reverse with
    | '\'' :: body => decode body.reverse
    | _ => none
  | _ => none

end SessionBroker.Text.Quoted
