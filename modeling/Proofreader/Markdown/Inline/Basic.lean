import Proofreader.Text.Basic

/-!
# Inline content

The text of a heading, a paragraph or a cell is a sequence of inline elements.  It
is rendered as HTML, or as plain text where it describes an image.
-/

namespace Proofreader.Markdown

inductive Inline where
  | text (t : Text)
  | code (t : Text)
  | html (t : Text)
  | softBreak
  | hardBreak
  /-- One end of an emphasised stretch. -/
  | emphasis (isStrong opens : Bool)
  | link (target title : Text) (content : List Inline)
  | image (source title : Text) (content : List Inline)

namespace Inline

def escapeChar (c : Char) : Text :=
  if c = '&' then "&amp;".toList
  else if c = '<' then "&lt;".toList
  else if c = '>' then "&gt;".toList
  else if c = '"' then "&quot;".toList
  else [c]

def escape (t : Text) : Text := t.flatMap escapeChar

def attributeText (name value : Text) : Text :=
  ' ' :: name ++ ['=', '"'] ++ escape value ++ ['"']

def titleText (title : Text) : Text := if title.isEmpty then [] else attributeText "title" title

mutual

def plain : Inline → Text
  | .text t => t
  | .code t => t
  | .html t => t
  | .softBreak => ['\n']
  | .hardBreak => ['\n']
  | .emphasis _ _ => []
  | .link _ _ content => plainAll content
  | .image _ _ content => plainAll content

def plainAll : List Inline → Text
  | [] => []
  | i :: rest => plain i ++ plainAll rest

end

mutual

def render : Inline → Text
  | .text t => escape t
  | .code t => "<code>".toList ++ escape t ++ "</code>".toList
  | .html t => t
  | .softBreak => ['\n']
  | .hardBreak => "<br />\n".toList
  | .emphasis isStrong opens =>
      '<' :: (if opens then [] else ['/']) ++ (if isStrong then "strong>" else "em>").toList
  | .link target title content =>
      "<a".toList ++ attributeText "href" target ++ titleText title ++ '>' :: renderAll content ++
        "</a>".toList
  | .image source title content =>
      "<img".toList ++ attributeText "src" source ++ attributeText "alt" (plainAll content) ++
        titleText title ++ " />".toList

def renderAll : List Inline → Text
  | [] => []
  | i :: rest => render i ++ renderAll rest

end

end Inline

end Proofreader.Markdown
