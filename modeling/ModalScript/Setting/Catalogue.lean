/-
The settings that every editor has from the start.
-/
import ModalScript.Setting.Declaration

namespace ModalScript

/-- The name of the setting that says which characters belong to words. -/
def keywordSetting : String :=
  "iskeyword"

namespace Catalogue

/-- A flag. -/
def flag (name abbreviation : String) (default : Bool) : SettingDeclaration :=
  .ofDefault name abbreviation (.flag default)

/-- A number. -/
def number (name abbreviation : String) (default : Int64) : SettingDeclaration :=
  .ofDefault name abbreviation (.number default)

/-- A number between two bounds. -/
def bounded (name abbreviation : String) (default least most : Int64) : SettingDeclaration :=
  (number name abbreviation default).checkedBy (.bounded least most)

/-- A list of tokens taken from a list of allowed ones. -/
def choices (name abbreviation default : String) (allowed : List String) : SettingDeclaration :=
  (SettingDeclaration.ofTokens name abbreviation default).checkedBy (.oneOf allowed)

/-- The settings in the order in which they are listed. -/
def settings : List SettingDeclaration :=
  [ ((SettingDeclaration.ofTokens keywordSetting "isk" "@,48-57,_").tokenizedBy .keywords).checkedBy
      .keywords,
    flag "ignorecase" "ic" false,
    flag "smartcase" "scs" false,
    flag "incsearch" "is" false,
    flag "hlsearch" "hls" false,
    flag "wrapscan" "ws" true,
    (flag "number" "nu" false).perEditor,
    (flag "relativenumber" "rnu" false).perEditor,
    (bounded "shiftwidth" "sw" 8 0 999).perEditor,
    (bounded "tabstop" "ts" 8 1 999).perEditor,
    (flag "expandtab" "et" false).perEditor,
    bounded "scrolljump" "sj" 1 (-100) 999,
    bounded "scrolloff" "so" 0 0 999,
    bounded "history" "hi" 50 0 10000,
    flag "timeout" "to" true,
    bounded "timeoutlen" "tm" 1000 0 Int64.maxValue,
    number "undolevels" "ul" 1000,
    bounded "maxfuncdepth" "mfd" 100 1 Int64.maxValue,
    (SettingDeclaration.ofDefault "selection" "sel" (.text "inclusive")).checkedBy
      (.oneOf ["old", "inclusive", "exclusive"]),
    .ofTokens "viminfo" "vi" "'100,<50,s10,h",
    choices "clipboard" "cb" "" ["unnamed", "unnamedplus"],
    choices "nrformats" "nf" "hex" ["octal", "hex", "alpha", "bin"],
    (SettingDeclaration.ofTokens "matchpairs" "mps" "(:),\x7b:\x7d,[:]").checkedBy .pairs ]

end Catalogue

end ModalScript
