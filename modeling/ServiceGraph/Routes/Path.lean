/-!
# Joining route paths

* `Routes.joinPath outer path`: one path below another. Slashes at the end of the outer one and at
  the start of the inner one are dropped, one slash joins what is left, and the result begins with
  a slash.
-/

namespace ServiceGraph.Routes

def trimStart (s : List Char) : List Char := s.dropWhile (· = '/')

def trimEnd (s : List Char) : List Char := (s.reverse.dropWhile (· = '/')).reverse

/-- the same path with a slash in front, unless it has one -/
def rooted (s : List Char) : List Char :=
  if s.head? = some '/' then s else '/' :: s

def joinChars (outer path : List Char) : List Char :=
  let outer := trimEnd outer
  let path := trimStart path
  if outer = [] then '/' :: path
  else if path = [] then rooted outer
  else rooted outer ++ '/' :: path

def joinPath (outer path : String) : String :=
  String.ofList (joinChars outer.toList path.toList)

end ServiceGraph.Routes
