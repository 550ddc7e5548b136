import Scaffold.Template.Basic

namespace Scaffold.Template.Page

open Slot

def html : Template where
  name := "page/index.html.tmpl"
  lines := [
    "<!doctype html>",
    "<html lang=\"en\">",
    "  <head>",
    "    <meta charset=\"UTF-8\" />",
    "    <meta name=\"viewport\" content=\"width=device-width, initial-scale=1.0\" />",
    ["    <title>", title, "</title>"],
    "  </head>",
    "  <body>",
    "    <div id=\"root\"></div>",
    "    <script type=\"module\" src=\"./index.tsx\"></script>",
    "  </body>",
    "</html>"]

def entry : Template where
  name := "page/index.tsx.tmpl"
  lines := [
    "/* @refresh reload */",
    "import \x7b render \x7d from 'solid-js/web';",
    "import App from './App';",
    [],
    "const root = document.getElementById('root');",
    [],
    "if (!root) \x7b",
    ["  throw new Error('", kebab, ": #root element not found');"],
    "\x7d",
    [],
    "render(() => <App />, root);"]

def staticApp : Template where
  name := "page/static/App.tsx.tmpl"
  lines := [
    "export default function App() \x7b",
    "  return (",
    ["    <main class=\"page page-", kebab, "\">"],
    ["      <h1>", title, "</h1>"],
    "    </main>",
    "  );",
    "\x7d"]

end Scaffold.Template.Page
