/-
# Probe programs

A probe is a Go program that looks at interfaces by reflection and prints the
description of what it finds.  It links the package that holds the interfaces
and a model package that turns a reflected interface into method descriptions.
For each symbol, in order, it takes the type of a nil pointer to the interface
and dereferences it.

Paths and the names of the entries stand in the program as string literals.  The
symbols themselves also stand as bare selectors, so a symbol that is not an
identifier gives a program that does not compile.  Nothing here checks that.
-/

import InterfaceProbe.Json.Quoted
import InterfaceProbe.Text.Lines
import InterfaceProbe.Wire.Frame

namespace InterfaceProbe

/-- What a probe is asked for. -/
structure ProbeRequest where
  /-- The import path of the package that holds the interfaces. -/
  importPath : String
  /-- The names of the interfaces, in the order of the report. -/
  symbols : List String
  deriving DecidableEq, Repr, Inhabited

namespace Program

/-- The file a program is kept in. -/
def fileName : String := "prog.go"

/-- The name under which a program imports the package that holds the interfaces. -/
def packageAlias : String := "pkg_"

/-- The import path of the usual model package. -/
def standardModelImport : String := "github.com/juno-lab/mock/mockgen/model"

/-- The package clause and the imports. -/
def importLines (importPath modelImport : String) : List String :=
    ["",
     "package main",
     "",
     "import (",
     "\t\"encoding/json\"",
     "\t\"fmt\"",
     "\t\"os\"",
     "\t\"path\"",
     "\t\"reflect\"",
     "",
     "\tmodel " ++ quoted modelImport,
     "",
     "\t" ++ packageAlias ++ " " ++ quoted importPath,
     ")"]

/-- The beginning of the main function, up to the entries. -/
def entriesOpening : List String :=
    ["",
     "func main() \x7b",
     "\tits := []struct \x7b",
     "\t\tsym string",
     "\t\ttyp reflect.Type",
     "\t\x7d\x7b"]

/-- The entry of one interface: its name and its type. -/
def entryLine (symbol : String) : String :=
  "\t\t\x7b " ++ quoted symbol ++ ", reflect.TypeOf((*" ++ packageAlias ++ "." ++ symbol ++
    ")(nil)).Elem()\x7d,"

/-- The rest of the main function: it describes every entry and prints the report. -/
def mainLines (importPath : String) : List String :=
    ["\t\x7d",
     "\tpkg := &model.Package\x7b",
     "\t\t// NOTE: This behaves contrary to documented behaviour if the",
     "\t\t// package name is not the final component of the import path.",
     "\t\t// The reflect package doesn't expose the package name, though.",
     "\t\tName: path.Base(" ++ quoted importPath ++ "),",
     "\t\x7d",
     "",
     "\tfor _, it := range its \x7b",
     "\t\tintf, err := model.InterfaceFromInterfaceType(it.typ)",
     "\t\tif err != nil \x7b",
     "\t\t\tfmt.Fprintf(os.Stderr, \"Reflection: %v\\n\", err)",
     "\t\t\tos.Exit(1)",
     "\t\t\x7d",
     "\t\tintf.Name = it.sym",
     "\t\tpkg.Interfaces = append(pkg.Interfaces, intf)",
     "\t\x7d",
     "",
     "\tfmt.Println(\"\\n" ++ sentinel ++ "\")",
     "",
     "\tif err := json.NewEncoder(os.Stdout).Encode(encodePackage(pkg)); err != nil \x7b",
     "\t\tfmt.Fprintf(os.Stderr, \"json encode: %v\\n\", err)",
     "\t\tos.Exit(1)",
     "\t\x7d",
     "\x7d",
     ""]

/-- The functions that give descriptions their wire form, types apart. -/
def signatureLines : List String :=
    ["// Wire shape: lowercase field names, every type tagged with \"kind\".",
     "",
     "type object = map[string]interface\x7b\x7d",
     "",
     "func encodePackage(pkg *model.Package) object \x7b",
     "\tintfs := make([]interface\x7b\x7d, 0, len(pkg.Interfaces))",
     "\tfor _, intf := range pkg.Interfaces \x7b",
     "\t\tmethods := make([]interface\x7b\x7d, 0, len(intf.Methods))",
     "\t\tfor _, m := range intf.Methods \x7b",
     "\t\t\tmethods = append(methods, " ++
       "encodeSignature(object\x7b\"name\": m.Name\x7d, m.In, m.Out, m.Variadic))",
     "\t\t\x7d",
     "\t\tintfs = append(intfs, object\x7b\"name\": intf.Name, \"methods\": methods\x7d)",
     "\t\x7d",
     "\treturn object\x7b\"name\": pkg.Name, \"interfaces\": intfs\x7d",
     "\x7d",
     "",
     "func encodeSignature(" ++
       "o object, in, out []*model.Parameter, variadic *model.Parameter) object \x7b",
     "\to[\"params\"] = encodeParams(in)",
     "\to[\"results\"] = encodeParams(out)",
     "\tif variadic != nil \x7b",
     "\t\to[\"variadic\"] = encodeParam(variadic)",
     "\t\x7d",
     "\treturn o",
     "\x7d",
     "",
     "func encodeParams(ps []*model.Parameter) []interface\x7b\x7d \x7b",
     "\tout := make([]interface\x7b\x7d, 0, len(ps))",
     "\tfor _, p := range ps \x7b",
     "\t\tout = append(out, encodeParam(p))",
     "\t\x7d",
     "\treturn out",
     "\x7d",
     "",
     "func encodeParam(p *model.Parameter) object \x7b",
     "\treturn object\x7b\"name\": p.Name, \"type\": encodeType(p.Type)\x7d",
     "\x7d",
     ""]

/-- The function that gives types their wire form. -/
def typeLines : List String :=
    ["func encodeType(t model.Type) object \x7b",
     "\tswitch t := t.(type) \x7b",
     "\tcase model.PredeclaredType:",
     "\t\treturn object\x7b\"kind\": \"predeclared\", \"name\": string(t)\x7d",
     "\tcase *model.PredeclaredType:",
     "\t\treturn object\x7b\"kind\": \"predeclared\", \"name\": string(*t)\x7d",
     "\tcase *model.NamedType:",
     "\t\to := object\x7b\"kind\": \"named\", \"name\": t.Type\x7d",
     "\t\tif t.Package != \"\" \x7b",
     "\t\t\to[\"package\"] = t.Package",
     "\t\t\x7d",
     "\t\treturn o",
     "\tcase *model.PointerType:",
     "\t\treturn object\x7b\"kind\": \"pointer\", \"elem\": encodeType(t.Type)\x7d",
     "\tcase *model.ArrayType:",
     "\t\to := object\x7b\"kind\": \"array\", \"elem\": encodeType(t.Type)\x7d",
     "\t\tif t.Len >= 0 \x7b",
     "\t\t\to[\"len\"] = t.Len",
     "\t\t\x7d",
     "\t\treturn o",
     "\tcase *model.MapType:",
     "\t\treturn object\x7b\"kind\": \"map\", " ++
       "\"key\": encodeType(t.Key), \"value\": encodeType(t.Value)\x7d",
     "\tcase *model.ChanType:",
     "\t\tdir := \"both\"",
     "\t\tswitch t.Dir \x7b",
     "\t\tcase model.RecvDir:",
     "\t\t\tdir = \"recv\"",
     "\t\tcase model.SendDir:",
     "\t\t\tdir = \"send\"",
     "\t\t\x7d",
     "\t\treturn object\x7b\"kind\": \"chan\", \"dir\": dir, \"elem\": encodeType(t.Type)\x7d",
     "\tcase *model.FuncType:",
     "\t\treturn encodeSignature(object\x7b\"kind\": \"func\"\x7d, t.In, t.Out, t.Variadic)",
     "\t\x7d",
     "\tfmt.Fprintf(os.Stderr, \"Reflection: unsupported type %T\\n\", t)",
     "\tos.Exit(1)",
     "\treturn nil",
     "\x7d"]

/-- All lines of a program. -/
def sourceLines (request : ProbeRequest) (modelImport : String) : List String :=
  importLines request.importPath modelImport ++ entriesOpening ++
    request.symbols.map entryLine ++ mainLines request.importPath ++ signatureLines ++ typeLines

end Program

/-- The program that describes the requested interfaces. -/
def ProbeRequest.program (request : ProbeRequest) (modelImport : String) : String :=
  asLines (Program.sourceLines request modelImport)

end InterfaceProbe
