/-!
# Well-known names

The rules, properties, item types and data sources with a meaning to the library.
-/

namespace SliceSync.WellKnown

/-- The rule of general project properties: it holds all that creating a context needs. -/
def generalRule : String := "ConfigurationGeneral"

/-- The language a context is created for. -/
def language : String := "LanguageServiceName"

def targetPath : String := "TargetPath"

def projectFullPath : String := "MSBuildProjectFullPath"

def assemblyName : String := "AssemblyName"

def projectName : String := "MSBuildProjectName"

/-- The identity of the project, the same after each reload. -/
def projectGuid : String := "ProjectGuid"

/-- The items compiled into the output. -/
def compileItems : String := "Compile"

/-- The items that only analyzers read. -/
def additionalFileItems : String := "AdditionalFiles"

/-- The source that stamps evaluations. -/
def evaluationSource : String := "ProjectEvaluation"

/-- The source that stamps builds. -/
def buildSource : String := "DesignTimeBuild"

end SliceSync.WellKnown
